import X86Kernel.Fat.Layout
import X86Kernel.Lib.Chain

/-! Chains of clusters in the cached table: walking them, freeing them, and the search for a free
cluster. -/
namespace X86Kernel.Fat

open Vol

/-- The cluster after `c`, if the chain does not end there. -/
def nextOf (g : Geom) (table : ℕ → ℕ) (c : ℕ) : Option ℕ :=
  if fatValidCluster g (table c) then some (table c) else none

/-- `chain` lists the clusters of a file whose first one is `start`. -/
structure IsChain (g : Geom) (table : ℕ → ℕ) (start : ℕ) (chain : List ℕ) : Prop where
  valid_start : fatValidCluster g start = true
  linked : Chain.Linked (nextOf g table) (some start) chain
  last : ∀ c, chain.getLast? = some c → 0xFFF8 ≤ table c

variable {g : Geom} {table : ℕ → ℕ}

theorem nextOf_valid {c d : ℕ} (h : nextOf g table c = some d) :
    fatValidCluster g d = true ∧ table c = d := by
  unfold nextOf at h
  split_ifs at h with hv
  obtain rfl := Option.some.inj h
  exact ⟨hv, rfl⟩

theorem valid_of_linked {cur : Option ℕ} {l : List ℕ} (h : Chain.Linked (nextOf g table) cur l)
    (hcur : ∀ c, cur = some c → fatValidCluster g c = true) :
      ∀ c ∈ l, fatValidCluster g c = true := by
  induction l generalizing cur with
  | nil => exact fun c hc => absurd hc List.not_mem_nil
  | cons a l ih =>
    intro c hc
    rcases List.mem_cons.mp hc with rfl | hc
    · exact hcur c h.1
    · exact ih h.2 (fun d hd => (nextOf_valid hd).1) c hc

theorem valid_lt {c : ℕ} (h : fatValidCluster g c = true) : 2 ≤ c ∧ c < g.noClusters := by
  unfold fatValidCluster at h
  simp only [Bool.not_eq_true', Bool.or_eq_false_iff, decide_eq_false_iff_not, not_le, not_lt] at h
  exact ⟨h.1.2, h.2⟩

theorem not_valid_of_ge {c : ℕ} (h : 0xFFF8 ≤ c) : fatValidCluster g c = false := by
  unfold fatValidCluster
  rw [decide_eq_true h]
  rfl

/-- A list of different clusters is no longer than the volume. -/
theorem length_le_of_valid {l : List ℕ} (hn : l.Nodup) (hv : ∀ c ∈ l, fatValidCluster g c = true) :
    l.length ≤ g.noClusters := by
  have hsub : l.toFinset ⊆ Finset.range g.noClusters := fun c hc =>
    Finset.mem_range.mpr (valid_lt (hv c (List.mem_toFinset.mp hc))).2
  have hcard := Finset.card_le_card hsub
  rwa [List.toFinset_card_of_nodup hn, Finset.card_range] at hcard

/-- Walking over the whole chain ends at its last cluster. -/
theorem walkChain_last {cur : ℕ} {l : List ℕ}
    (h : Chain.Linked (nextOf g table) (some cur) l) {n : ℕ}
    (hn : l.length = n + 1) : l.getLast? = some (walkChain g table n cur) := by
  induction n generalizing cur l with
  | zero =>
    obtain ⟨a, rfl⟩ := List.length_eq_one_iff.mp hn
    rw [← Option.some.inj h.1]
    rfl
  | succ n ih =>
    obtain _ | ⟨a, l⟩ := l
    · simp at hn
    obtain rfl := Option.some.inj h.1
    have hl : l.length = n + 1 := by simpa using hn
    obtain _ | ⟨b, l⟩ := l
    · simp at hl
    have hb := nextOf_valid h.2.1
    have hlink : Chain.Linked (nextOf g table) (some b) (b :: l) := h.2.1 ▸ h.2
    rw [List.getLast?_cons_cons, walkChain, hb.2, if_pos hb.1]
    exact ih hlink hl

theorem IsChain.valid {start : ℕ} {chain : List ℕ} (h : IsChain g table start chain) :
    ∀ c ∈ chain, fatValidCluster g c = true :=
  valid_of_linked h.linked fun _ hc => Option.some.inj hc ▸ h.valid_start

/-- No cluster of a chain is free. -/
theorem IsChain.ne_zero {start : ℕ} {chain : List ℕ} (h : IsChain g table start chain) :
    ∀ c ∈ chain, table c ≠ 0 := by
  obtain ⟨-, hlinked, hlast⟩ := h
  generalize some start = cur at hlinked
  induction chain generalizing cur with
  | nil => exact fun c hc => absurd hc List.not_mem_nil
  | cons a l ih =>
    intro c hc
    rcases List.mem_cons.mp hc with rfl | hc
    · cases l with
      | nil =>
        have := hlast c rfl
        omega
      | cons b l =>
        obtain ⟨hv, heq⟩ := nextOf_valid hlinked.2.1
        have := (valid_lt hv).1
        omega
    · refine ih (fun d hd => hlast d ?_) (nextOf g table a) hlinked.2 c hc
      rw [List.getLast?_cons, hd]
      rfl

/-! ### The search for a free cluster -/

theorem freeSearch_le (hg : g.noClusters ≤ 0xFFF7) (n : ℕ) :
    ∀ {c d : ℕ}, freeSearch g table n c = some d →
    c ≤ d ∧ (g.noClusters ≤ d ∨ table d = 0) := by
  induction n with
  | zero => exact fun h => nomatch h
  | succ n ih =>
    intro c d h
    rw [freeSearch] at h
    split_ifs at h with hc
    · obtain rfl := Option.some.inj h
      exact ⟨le_refl _, hc⟩
    · rw [not_or, not_le] at hc
      rw [Nat.mod_eq_of_lt (show c + 1 < 2 ^ 16 by omega)] at h
      obtain ⟨h1, h2⟩ := ih h
      exact ⟨by omega, h2⟩

theorem findFree_spec (hg : g.noClusters ≤ 0xFFF7) {v : Vol} {start c : ℕ}
    (h : v.findFree g start = some c) :
    start ≤ c ∧ c < g.noClusters ∧ v.table c = 0 := by
  unfold findFree at h
  cases hs : freeSearch g v.table (2 ^ 16) start with
  | none =>
    rw [hs] at h
    cases h
  | some d =>
    rw [hs] at h
    dsimp only at h
    split_ifs at h with hd
    obtain rfl := Option.some.inj h
    obtain ⟨h1, h2⟩ := freeSearch_le hg _ hs
    exact ⟨h1, by omega, h2.resolve_left hd⟩

/-! ### Freeing a chain -/

theorem update_valid {v : Vol} {c : ℕ} (hc : fatValidCluster g c = true) (value : ℕ) :
    v.fatTableUpdateCluster g c value =
      ({ v with dirty := Function.update v.dirty c true, table := Function.update v.table c value },
        true) := by
  have hlt := (valid_lt hc).2
  have hle : g.noClusters ≤ g.tableSize / 2 := Nat.min_le_right _ _
  unfold fatTableUpdateCluster
  rw [if_neg (by omega)]

theorem freeChain_spec (n : ℕ) : ∀ {cur : Option ℕ} {l : List ℕ} {c : ℕ} {f : Freeing},
    Chain.Linked (nextOf g f.vol.table) cur l →
    (cur = if fatValidCluster g c then some c else none) → l.length < n →
    (freeChain g n c f).vol.table = (fun x => if x ∈ l then 0 else f.vol.table x) ∧
      (freeChain g n c f).vol.disk = f.vol.disk ∧ (freeChain g n c f).vol.clock = f.vol.clock ∧
      (freeChain g n c f).freed = f.freed + l.length ∧ (freeChain g n c f).ok = f.ok := by
  induction n with
  | zero => exact fun _ _ h => absurd h (Nat.not_lt_zero _)
  | succ n ih =>
    intro cur l c f h hcur hn
    rw [freeChain]
    cases l with
    | nil =>
      have hnone : cur = none := h
      have hc : fatValidCluster g c = false := by
        by_contra hne
        rw [Bool.not_eq_false] at hne
        rw [hcur, if_pos hne] at hnone
        cases hnone
      rw [hc, if_neg Bool.false_ne_true]
      exact ⟨by simp, rfl, rfl, rfl, rfl⟩
    | cons a l =>
      obtain ⟨ha, hl⟩ := h
      have hac : fatValidCluster g c = true ∧ c = a := by
        rw [ha] at hcur
        split_ifs at hcur with hv
        exact ⟨hv, (Option.some.inj hcur).symm⟩
      obtain ⟨hv, rfl⟩ := hac
      have hcl : Chain.Linked (nextOf g f.vol.table) (some c) (c :: l) := ⟨rfl, hl⟩
      have hnd : (c :: l).Nodup := hcl.nodup
      rw [if_pos hv]
      dsimp only
      rw [update_valid hv]
      dsimp only
      have hl' : Chain.Linked (nextOf g (Function.update f.vol.table c 0))
          (nextOf g f.vol.table c) l := by
        refine hl.congr fun b hb => ?_
        unfold nextOf
        rw [Function.update_of_ne]
        rintro rfl
        exact (List.nodup_cons.mp hnd).1 hb
      obtain ⟨h1, h2, h3, h4, h5⟩ :=
        ih (c := f.vol.table c) (f := ⟨⟨f.vol.disk, Function.update f.vol.table c 0,
        Function.update f.vol.dirty c true, f.vol.clock⟩, min f.lo c, max f.hi c, f.freed + 1,
          f.ok && true⟩) hl' rfl
        (by simpa using hn)
      refine ⟨?_, h2, h3, ?_, ?_⟩
      · rw [h1]
        funext x
        by_cases hx : x = c
        · subst hx
          rw [if_neg (List.nodup_cons.mp hnd).1, if_pos List.mem_cons_self]
          exact Function.update_self _ _ _
        · by_cases hxl : x ∈ l
          · rw [if_pos hxl, if_pos (List.mem_cons_of_mem _ hxl)]
          · rw [if_neg hxl, if_neg (by simp [hx, hxl])]
            exact Function.update_of_ne hx _ _
      · rw [h4, List.length_cons]
        dsimp only
        omega
      · rw [h5, Bool.and_true]

end X86Kernel.Fat
