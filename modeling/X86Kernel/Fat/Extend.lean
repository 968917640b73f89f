import X86Kernel.Fat.Chain

/-! `fat_extend_cluster_chain`: what it appends to a chain, and that it takes everything back when
it fails. -/
namespace X86Kernel.Fat

open Vol

variable {g : Geom} {table table' : ℕ → ℕ} {last : ℕ} {fs : List ℕ}

/-- `table` with the clusters `fs`, free before, linked on behind `last`. -/
structure Appended (g : Geom) (table : ℕ → ℕ) (last : ℕ) (fs : List ℕ) (table' : ℕ → ℕ) : Prop where
  linked : Chain.Linked (nextOf g table') (some last) (last :: fs)
  other : ∀ c, c ≠ last → c ∉ fs → table' c = table c
  free : ∀ f ∈ fs, fatValidCluster g f = true ∧ table f = 0
  none : fs = [] → table' last = table last
  tail : ∀ f, fs.getLast? = some f → table' f = 0xFFFF

theorem Appended.refl (h : 0xFFF8 ≤ table last) : Appended g table last [] table where
  linked := ⟨rfl, by
    show nextOf g table last = Option.none
    unfold nextOf
    rw [not_valid_of_ge h, if_neg Bool.false_ne_true]⟩
  other := fun _ _ _ => rfl
  free := fun _ h => absurd h List.not_mem_nil
  none := fun _ => rfl
  tail := fun _ h => nomatch h

theorem Appended.notMem (h : Appended g table last fs table') (hlast : 0xFFF8 ≤ table last) :
    last ∉ fs := by
  intro hm
  have := (h.free last hm).2
  omega

/-- No cluster of the chain is free, the new ones included. -/
theorem Appended.ne_zero (h : Appended g table last fs table') (hlast : 0xFFF8 ≤ table last) :
    ∀ c ∈ last :: fs, table' c ≠ 0 := by
  have hend : ∀ c, (last :: fs).getLast? = some c → 0xFFF8 ≤ table' c := by
    intro c hc
    cases fs with
    | nil =>
      obtain rfl : last = c := by simpa using hc
      rw [h.none rfl]
      exact hlast
    | cons f fs =>
      rw [List.getLast?_cons_cons] at hc
      rw [h.tail c hc]
      decide
  intro c hc
  obtain ⟨l₁, l₂, hl⟩ := List.append_of_mem hc
  have hsuffix : Chain.Linked (nextOf g table') (some c) (c :: l₂) :=
    Chain.Linked.suffix (hl ▸ h.linked)
  cases l₂ with
  | nil =>
    have := hend c (by rw [hl]; simp)
    omega
  | cons b l₂ =>
    obtain ⟨hv, heq⟩ := nextOf_valid hsuffix.2.1
    have := (valid_lt hv).1
    omega

/-- One more cluster. -/
theorem Appended.snoc (h : Appended g table last fs table') (hlast : 0xFFF8 ≤ table last)
    {f prev : ℕ} (hprev : (last :: fs).getLast? = some prev) (hf : fatValidCluster g f = true)
    (hzero : table' f = 0) :
    Appended g table last (fs ++ [f])
      (Function.update (Function.update table' f 0xFFFF) prev f) := by
  have hnew : f ∉ last :: fs := fun hm => h.ne_zero hlast f hm hzero
  have hmem : prev ∈ last :: fs := List.mem_of_getLast? hprev
  have hne : prev ≠ f := fun heq => hnew (heq ▸ hmem)
  obtain ⟨l, hl⟩ : ∃ l, last :: fs = l ++ [prev] := by
    obtain ⟨l, hl⟩ := List.getLast?_eq_some_iff.mp hprev
    exact ⟨l, hl⟩
  have hnext : nextOf g (Function.update (Function.update table' f 0xFFFF) prev f) =
      Function.update (nextOf g (Function.update table' f 0xFFFF)) prev (some f) := by
    funext c
    unfold nextOf
    by_cases hc : c = prev
    · subst hc
      rw [Function.update_self, Function.update_self, if_pos hf]
    · rw [Function.update_of_ne hc, Function.update_of_ne hc]
  have hlinked :
      Chain.Linked (nextOf g (Function.update table' f 0xFFFF)) (some last) (l ++ [prev]) := by
    rw [← hl]
    refine h.linked.congr fun c hc => ?_
    unfold nextOf
    rw [Function.update_of_ne]
    rintro rfl
    exact hnew hc
  refine ⟨?_, fun c hc hcf => ?_, fun c hc => ?_, fun hnil => ?_, fun c hc => ?_⟩
  · rw [hnext, show last :: (fs ++ [f]) =
      l ++ [prev, f] by rw [← List.cons_append, hl, List.append_assoc]; rfl]
    refine hlinked.snoc (hl ▸ hnew) ?_
    unfold nextOf
    rw [Function.update_self]
    exact if_neg (by rw [not_valid_of_ge (by decide)]; exact Bool.false_ne_true)
  · rw [List.mem_append, not_or] at hcf
    have hcp : c ≠ prev := by
      rintro rfl
      rcases List.mem_cons.mp hmem with h1 | h1
      · exact hc h1
      · exact hcf.1 h1
    rw [Function.update_of_ne hcp, Function.update_of_ne fun heq => hcf.2 (by simp [heq])]
    exact h.other c hc hcf.1
  · rcases List.mem_append.mp hc with hc | hc
    · exact h.free c hc
    · obtain rfl := List.mem_singleton.mp hc
      refine ⟨hf, ?_⟩
      rw [← h.other c (fun heq => hnew (heq ▸ List.mem_cons_self)) fun hm =>
        hnew (List.mem_cons_of_mem _ hm)]
      exact hzero
  · simp at hnil
  · obtain rfl : f = c := by simpa using hc
    rw [Function.update_of_ne (Ne.symm hne), Function.update_self]

/-- `fat_unwind_chain` takes every cluster off again. -/
theorem fatUnwindChain_table (v : Vol) (h : Appended g table last fs v.table)
    (hv : fatValidCluster g last = true)
    (hlast : 0xFFF8 ≤ table last) : (v.fatUnwindChain g last (table last)).table = table := by
  unfold fatUnwindChain
  rw [hv, if_neg (by decide)]
  cases hfs : fs with
  | nil =>
    subst hfs
    rw [if_pos (h.none rfl)]
    funext c
    by_cases hc : c = last
    · rw [hc, h.none rfl]
    · exact h.other c hc List.not_mem_nil
  | cons f l =>
    obtain ⟨hvf, hnext⟩ := nextOf_valid (hfs ▸ h.linked).2.1
    have hne : v.table last ≠ table last := by
      intro heq
      rw [← hnext, heq, not_valid_of_ge hlast] at hvf
      cases hvf
    rw [if_neg hne]
    dsimp only
    rw [update_valid hv, hnext]
    have hlf := h.notMem hlast
    have hlinked :
        Chain.Linked (nextOf g (Function.update v.table last (table last))) (some f) fs := by
      have hl : Chain.Linked (nextOf g v.table) (some f) fs := by
        have := h.linked.2
        rw [hfs] at this ⊢
        exact ⟨rfl, this.2⟩
      refine hl.congr fun c hc => ?_
      unfold nextOf
      rw [Function.update_of_ne]
      rintro rfl
      exact hlf hc
    have hlen : fs.length < g.noClusters + 1 :=
      Nat.lt_succ_of_le (length_le_of_valid hlinked.nodup fun c hc => (h.free c hc).1)
    have hspec := freeChain_spec (g.noClusters + 1) (c := f)
      (f := ⟨⟨v.disk, Function.update v.table last (table last),
      Function.update v.dirty last true, v.clock⟩, f, f, 0, true⟩) hlinked (by rw [if_pos hvf]) hlen
    unfold freeFrom
    rw [hspec.1]
    funext c
    by_cases hcf : c ∈ fs
    · rw [if_pos hcf, (h.free c hcf).2]
    · rw [if_neg hcf]
      by_cases hc : c = last
      · rw [hc]
        exact Function.update_self _ _ _
      · exact (Function.update_of_ne hc _ _).trans (h.other c hc hcf)

/-! ### The new clusters on the disk -/

def Zeroed (g : Geom) (v : Vol) (c : ℕ) : Prop :=
  ∀ k < g.clusterSize, v.disk (g.clusterAddr c + k) = 0

/-- Two clusters do not overlap. -/
theorem clusters_apart (hg : g.Ok) {c d : ℕ} (hc : fatValidCluster g c = true)
    (hd : fatValidCluster g d = true) (hne : c ≠ d) :
    g.clusterAddr c + g.clusterSize ≤ g.clusterAddr d ∨
    g.clusterAddr d + g.clusterSize ≤ g.clusterAddr c := by
  have h := hg.apart (.inr hc) (.inr hd) hne
  rwa [hg.dirRegion_cluster hc, hg.dirRegion_cluster hd] at h

theorem zeroed_write {e : Env} {v : Vol} {c : ℕ}
    (hok : (v.ataWriteExact e (e.geom.clusterAddr c) zeros e.geom.clusterSize).2 = true) :
    Zeroed e.geom (v.ataWriteExact e (e.geom.clusterAddr c) zeros e.geom.clusterSize).1 c := by
  obtain ⟨m, -, -, hdisk, hall, -⟩ :=
    ataWriteExact_cases e v (e.geom.clusterAddr c) zeros e.geom.clusterSize
  intro k hk
  rw [hdisk, blit_inside (by omega) (by rw [hall hok]; omega)]
  rfl

theorem zeroed_other {e : Env} (hg : e.geom.Ok) {v : Vol} {c d : ℕ}
    (hc : fatValidCluster e.geom c = true)
    (hd : fatValidCluster e.geom d = true) (hne : c ≠ d) (buf : Buf) (h : Zeroed e.geom v d) :
    Zeroed e.geom (v.ataWriteExact e (e.geom.clusterAddr c) buf e.geom.clusterSize).1 d := by
  intro k hk
  have hapart := clusters_apart hg hc hd hne
  rw [ataWriteExact_outside (by omega)]
  exact h k hk

/-- The table is somewhere else than the clusters. -/
theorem zeroed_flushed (hg : g.Ok) {v v' : Vol} (hf : Flushed g v v') {c : ℕ}
    (hc : fatValidCluster g c = true) (h : Zeroed g v c) : Zeroed g v' c := by
  intro k hk
  rw [hf.disk, h k hk]
  intro hx
  have := hg.table_lt hx (.inr hc)
  rw [hg.dirRegion_cluster hc] at this
  exact absurd this (by show ¬(g.clusterAddr c + k < g.clusterAddr c); omega)

/-- What one run of the loop leaves: the old table, or all the clusters linked on. -/
theorem extendLoop_spec {e : Env} (hg : e.geom.Ok) (hv : fatValidCluster e.geom last = true)
    (hlast : 0xFFF8 ≤ table last) (n : ℕ) : ∀ (searchFrom prev lo hi : ℕ) (v : Vol) (fs : List ℕ),
      Appended e.geom table last fs v.table →
    (last :: fs).getLast? = some prev → fs.Pairwise (· < ·) → (∀ f ∈ fs, f < searchFrom) →
      2 ≤ searchFrom →
    (∀ f ∈ fs, Zeroed e.geom v f) →
    ((extendLoop e last (table last) n searchFrom prev lo hi v).2 = none →
      (extendLoop e last (table last) n searchFrom prev lo hi v).1.table = table) ∧
    (∀ p, (extendLoop e last (table last) n searchFrom prev lo hi v).2 = some p →
      ∃ gs, gs.length = n ∧
        Appended e.geom table last (fs ++ gs)
          (extendLoop e last (table last) n searchFrom prev lo hi v).1.table ∧
        (fs ++ gs).Pairwise (· < ·) ∧
        ∀ f ∈ fs ++ gs,
          Zeroed e.geom (extendLoop e last (table last) n searchFrom prev lo hi v).1 f) := by
  induction n with
  | zero =>
    intro searchFrom prev lo hi v fs h hprev hsort _ _ hzero
    rw [extendLoop]
    refine ⟨fun hn => absurd hn (Option.some_ne_none _), fun p _ => ⟨[], rfl, ?_⟩⟩
    rw [List.append_nil]
    exact ⟨h, hsort, hzero⟩
  | succ n ih =>
    intro searchFrom prev lo hi v fs h hprev hsort hlt h2 hzero
    rw [extendLoop]
    cases hfind : v.findFree e.geom searchFrom with
    | none =>
      refine ⟨fun _ => fatUnwindChain_table v h hv hlast, fun p hp => nomatch hp⟩
    | some f =>
      obtain ⟨hfrom, hfn, hf0⟩ := findFree_spec hg.clusters hfind
      have hvf : fatValidCluster e.geom f = true :=
        (fatValidCluster_iff hg.clusters).mpr ⟨by omega, hfn⟩
      have hvprev : fatValidCluster e.geom prev = true := by
        rcases List.mem_cons.mp (List.mem_of_getLast? hprev) with rfl | hm
        · exact hv
        · exact (h.free prev hm).1
      dsimp only
      generalize hw : v.ataWriteExact e (e.geom.clusterAddr f) zeros e.geom.clusterSize = w
      have htable : w.1.table = v.table := by
        obtain ⟨-, -, -, -, -, ht, -⟩ :=
          ataWriteExact_cases e v (e.geom.clusterAddr f) zeros e.geom.clusterSize
        rw [← hw, ht]
      cases hok : w.2 with
      | false =>
        rw [if_neg Bool.false_ne_true]
        exact ⟨fun _ => fatUnwindChain_table w.1 (htable.symm ▸ h) hv hlast, fun p hp => nomatch hp⟩
      | true =>
        rw [if_pos rfl, update_valid hvf, update_valid hvprev, if_pos rfl]
        dsimp only
        rw [Nat.mod_eq_of_lt (show f + 1 < 2 ^ 16 by have := hg.clusters; omega)]
        have hsnoc :=
          (htable.symm ▸ h : Appended e.geom table last fs w.1.table).snoc hlast hprev hvf
            (htable ▸ hf0)
        have hnew : Zeroed e.geom w.1 f := by
          rw [← hw] at hok ⊢
          exact zeroed_write hok
        have hold : ∀ d ∈ fs, Zeroed e.geom w.1 d := by
          intro d hd
          have hne : f ≠ d := by
            have := hlt d hd
            omega
          rw [← hw]
          exact zeroed_other hg hvf (h.free d hd).1 hne _ (hzero d hd)
        have hstep := ih (f + 1) f (min lo f) (max hi f)
          ⟨w.1.disk, Function.update (Function.update w.1.table f 0xFFFF) prev f,
            Function.update (Function.update w.1.dirty f true) prev true, w.1.clock⟩
              (fs ++ [f]) hsnoc
          (by rw [← List.cons_append, List.getLast?_append]; rfl)
          (by
            rw [List.pairwise_append]
            exact ⟨hsort, List.pairwise_singleton _ _, fun a ha b hb => by
              rw [List.mem_singleton.mp hb]
              exact lt_of_lt_of_le (hlt a ha) hfrom⟩)
          (by
            intro d hd
            rcases List.mem_append.mp hd with hd | hd
            · have := hlt d hd
              omega
            · rw [List.mem_singleton.mp hd]
              exact Nat.lt_succ_self _)
          (by omega)
          (by
            intro d hd
            rcases List.mem_append.mp hd with hd | hd
            · exact hold d hd
            · rw [List.mem_singleton.mp hd]
              exact hnew)
        refine ⟨hstep.1, fun p hp => ?_⟩
        obtain ⟨gs, hlen, hres⟩ := hstep.2 p hp
        refine ⟨f :: gs, by rw [List.length_cons, hlen], ?_⟩
        rw [List.append_assoc] at hres
        exact hres

theorem zeroGap_table (e : Env) (v : Vol) (lastCluster oldSize newSize : ℕ) :
    (v.zeroGap e lastCluster oldSize newSize).1.table = v.table := by
  have hwrite : ∀ (w : Vol) (buf : Buf),
        (w.ataWriteExact e (e.geom.clusterAddr lastCluster) buf e.geom.clusterSize).1.table =
      w.table := by
    intro w buf
    obtain ⟨-, -, -, -, -, ht, -⟩ :=
      ataWriteExact_cases e w (e.geom.clusterAddr lastCluster) buf e.geom.clusterSize
    exact ht
  unfold zeroGap
  dsimp only
  split_ifs
  · exact hwrite _ _
  · rfl
  · split
    · rfl
    · exact hwrite _ _
  · rfl

/-- The chain of the file after clusters were linked on behind its last one. -/
theorem IsChain.append {start : ℕ} {chain : List ℕ} (h : IsChain g table start chain)
    (hlast : chain.getLast? = some last)
    (ha : Appended g table last fs table') : IsChain g table' start (chain ++ fs) := by
  obtain ⟨l, rfl⟩ := List.getLast?_eq_some_iff.mp hlast
  refine ⟨h.valid_start, ?_, fun c hc => ?_⟩
  · rw [List.append_assoc]
    refine h.linked.join (fun b hb => ?_) ha.linked
    unfold nextOf
    rw [ha.other b]
    · rintro rfl
      have := List.nodup_append.mp h.linked.nodup
      exact this.2.2 b hb b (List.mem_singleton_self b) rfl
    · intro hbf
      exact h.ne_zero b (List.mem_append_left _ hb) (ha.free b hbf).2
  · cases fs with
    | nil =>
      rw [List.append_nil, hlast] at hc
      obtain rfl := Option.some.inj hc
      rw [ha.none rfl]
      exact h.last last hlast
    | cons f fs =>
      rw [ha.tail c (by simpa using hc)]
      decide

theorem clustersOf_eq {size : ℕ} (hpos : 0 < g.clusterSize) (h : size ≤ 2 ^ 32 - g.clusterSize)
    (hle : g.clusterSize ≤ 2 ^ 32) :
    g.clustersOf size = (size + g.clusterSize - 1) / g.clusterSize := by
  unfold Geom.clustersOf
  rw [Nat.mod_eq_of_lt (by omega)]

theorem Geom.Ok.clusterSize_le (hg : g.Ok) {c : ℕ} (hc : fatValidCluster g c = true) :
    g.clusterSize ≤ 2 ^ 32 := by
  have hroom := hg.cluster_room (valid_lt hc).2 (valid_lt hc).1
  have hle : g.sectorsPerCluster * g.bytesPerSector ≤ g.noSectors * g.bytesPerSector :=
    Nat.mul_le_mul_right _ (by omega)
  have := hg.addresses
  unfold Geom.clusterSize
  omega

/-- The clusters `fs`, which were free and are zeroed, come after `chain`. -/
structure Grown (g : Geom) (v : Vol) (start : ℕ) (chain fs : List ℕ) (v' : Vol) : Prop where
  sorted : fs.Pairwise (· < ·)
  free : ∀ f ∈ fs, fatValidCluster g f = true ∧ v.table f = 0 ∧ Zeroed g v' f
  others : ∀ c, chain.getLast? ≠ some c → c ∉ fs → v'.table c = v.table c
  isChain : IsChain g v'.table start (chain ++ fs)

theorem extend_spec {e : Env} (hg : e.geom.Ok) {v : Vol} {start : ℕ} {chain : List ℕ}
    (hchain : IsChain e.geom v.table start chain) {oldSize newSize : ℕ}
    (hlen : chain.length = max 1 ((oldSize + e.geom.clusterSize - 1) / e.geom.clusterSize))
    (hlt : oldSize < newSize) (hmax : newSize ≤ 2 ^ 32 - e.geom.clusterSize) :
    ((v.fatExtendClusterChain e start oldSize newSize).2 = none →
      (v.fatExtendClusterChain e start oldSize newSize).1.table = v.table) ∧
    (∀ n, (v.fatExtendClusterChain e start oldSize newSize).2 = some n →
      n = (newSize + e.geom.clusterSize - 1) / e.geom.clusterSize -
        max 1 ((oldSize + e.geom.clusterSize - 1) / e.geom.clusterSize) ∧
      ∃ fs, fs.length = n ∧
        Grown e.geom v start chain fs (v.fatExtendClusterChain e start oldSize newSize).1) := by
  have hle := hg.clusterSize_le hchain.valid_start
  have hold :
      (if e.geom.clustersOf oldSize = 0 then 1 else e.geom.clustersOf oldSize) = chain.length := by
    rw [hlen, clustersOf_eq hg.clusterSize_pos (by omega) hle]
    generalize (oldSize + e.geom.clusterSize - 1) / e.geom.clusterSize = k
    split_ifs <;> omega
  have hpos : 0 < chain.length := by omega
  unfold fatExtendClusterChain
  dsimp only
  rw [hold, clustersOf_eq hg.clusterSize_pos hmax hle, if_neg (by omega), hchain.valid_start,
    if_neg (by decide), ← hlen]
  generalize (newSize + e.geom.clusterSize - 1) / e.geom.clusterSize = newClusters
  have hwalk := walkChain_last hchain.linked (n := chain.length - 1) (by omega)
  generalize walkChain e.geom v.table (chain.length - 1) start = last at hwalk
  have hvlast := hchain.valid last (List.mem_of_getLast? hwalk)
  have htail := hchain.last last hwalk
  generalize hz : v.zeroGap e last oldSize newSize = z
  have hztable : z.1.table = v.table := by
    rw [← hz]
    exact zeroGap_table e v last oldSize newSize
  have hnone : ∀ w : Vol, w.table = v.table → IsChain e.geom w.table start (chain ++ []) := by
    intro w hw
    rw [hw, List.append_nil]
    exact hchain
  split_ifs with hzok hclusters hfree hheap
  · exact ⟨fun _ => hztable, fun n hn => nomatch hn⟩
  · refine ⟨fun _ => hztable, fun n hn => ?_⟩
    obtain rfl := Option.some.inj hn
    exact ⟨by omega, [], rfl, .nil, fun f hf => absurd hf List.not_mem_nil,
      fun c _ _ => congrFun hztable c, hnone _ hztable⟩
  · exact ⟨fun _ => hztable, fun n hn => nomatch hn⟩
  · exact ⟨fun _ => hztable, fun n hn => nomatch hn⟩
  · have hspec :=
      extendLoop_spec hg hvlast htail (newClusters - chain.length) 2 last last last z.1 []
      (hztable.symm ▸ Appended.refl htail) rfl .nil (fun f hf => absurd hf List.not_mem_nil)
        (le_refl _)
      fun f hf => absurd hf List.not_mem_nil
    rw [hztable]
    generalize extendLoop e last (v.table last)
      (newClusters - chain.length) 2 last last last z.1 = r at hspec
    cases hr : r.2 with
    | none => exact ⟨fun _ => hspec.1 hr, fun n hn => nomatch hn⟩
    | some p =>
      obtain ⟨gs, hgs, happ, hsort, hzero⟩ := hspec.2 p hr
      rw [List.nil_append] at happ hsort hzero
      dsimp only
      have hflush := flushed_fatTableFlushCache hg r.1 p.1 p.2
      generalize r.1.fatTableFlushCache e p.1 p.2 = w at hflush
      cases hw : w.2 with
      | true =>
        rw [if_pos rfl]
        refine ⟨fun hn => absurd hn (Option.some_ne_none _), fun n hn => ?_⟩
        obtain rfl := Option.some.inj hn
        refine ⟨rfl, gs, hgs, hsort, fun f hf => ?_, fun c hc hcf => ?_, ?_⟩
        · exact ⟨(happ.free f hf).1, (happ.free f hf).2,
            zeroed_flushed hg hflush (happ.free f hf).1 (hzero f hf)⟩
        · rw [hflush.table]
          refine happ.other c ?_ hcf
          rintro rfl
          exact hc hwalk
        · rw [hflush.table]
          exact hchain.append hwalk happ
      | false =>
        rw [if_neg Bool.false_ne_true]
        refine ⟨fun _ => ?_, fun n hn => nomatch hn⟩
        rw [(flushed_fatTableFlushCache hg _ _ _).table]
        exact fatUnwindChain_table w.1 (hflush.table.symm ▸ happ) hvlast htail

/-- `fat_extend_cluster_chain` links on as many free clusters as the new size takes, or changes
nothing. -/
theorem extend_exact (e : Env) (hg : e.geom.Ok) (v : Vol) {start : ℕ} {chain : List ℕ}
    (hchain : IsChain e.geom v.table start chain) {oldSize newSize : ℕ}
    (hlen : chain.length = max 1 ((oldSize + e.geom.clusterSize - 1) / e.geom.clusterSize))
    (hlt : oldSize < newSize) (hmax : newSize ≤ 2 ^ 32 - e.geom.clusterSize) :
    ((v.fatExtendClusterChain e start oldSize newSize).2 = none →
      (v.fatExtendClusterChain e start oldSize newSize).1.table = v.table) ∧
    (∀ n, (v.fatExtendClusterChain e start oldSize newSize).2 = some n →
      n = (newSize + e.geom.clusterSize - 1) / e.geom.clusterSize -
        max 1 ((oldSize + e.geom.clusterSize - 1) / e.geom.clusterSize) ∧
      ∃ fs, fs.length = n ∧ fs.Pairwise (· < ·) ∧
        (∀ f ∈ fs, fatValidCluster e.geom f = true ∧ v.table f = 0 ∧
          Zeroed e.geom (v.fatExtendClusterChain e start oldSize newSize).1 f) ∧
        (∀ c, chain.getLast? ≠ some c → c ∉ fs →
          (v.fatExtendClusterChain e start oldSize newSize).1.table c = v.table c) ∧
        IsChain e.geom (v.fatExtendClusterChain e start oldSize newSize).1.table start
          (chain ++ fs)) := by
  obtain ⟨hnone, hsome⟩ := extend_spec hg hchain hlen hlt hmax
  refine ⟨hnone, fun n hn => ?_⟩
  obtain ⟨hcount, fs, hfs, hgrown⟩ := hsome n hn
  exact ⟨hcount, fs, hfs, hgrown.sorted, hgrown.free, hgrown.others, hgrown.isChain⟩

/-- A file of one cluster, on a volume that has nothing else. -/
def oneFile : Vol := ⟨fun _ => 0, Function.update (fun _ => 0) 2 0xFFFF, fun _ => false, 0⟩

theorem oneFile_chain : IsChain smallGeom oneFile.table 2 [2] :=
  ⟨by decide, ⟨rfl, show nextOf smallGeom oneFile.table 2 = none by decide⟩,
    fun c hc => by cases hc; decide⟩

theorem extend_exact_oneFile :
    (oneFile.fatExtendClusterChain
      ⟨smallGeom, fun _ => none, fun _ _ => 0, fun _ => true⟩ 2 100 1200).2 = some 2 ∧
      ∃ fs, fs.length = 2 ∧ IsChain smallGeom
        (oneFile.fatExtendClusterChain ⟨smallGeom, fun _ => none, fun _ _ => 0,
          fun _ => true⟩ 2 100 1200).1.table 2 ([2] ++ fs) := by
  have hsome :
      (oneFile.fatExtendClusterChain
        ⟨smallGeom, fun _ => none, fun _ _ => 0, fun _ => true⟩ 2 100 1200).2 = some 2 := by
    decide +kernel
  obtain ⟨-, fs, hlen, -, -, -, hchain⟩ :=
    (extend_exact ⟨smallGeom, fun _ => none, fun _ _ => 0, fun _ => true⟩ smallGeom_ok
    oneFile oneFile_chain (by decide) (by decide) (by decide)).2 2 hsome
  exact ⟨hsome, fs, hlen, hchain⟩

end X86Kernel.Fat
