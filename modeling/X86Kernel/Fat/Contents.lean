import X86Kernel.Lib.Blocks
import X86Kernel.Fat.Update

/-! Contents: what writing and resizing make of the bytes of a file. -/
namespace X86Kernel.Fat

open Vol

/-- Byte `p` of what the clusters of `chain` hold. -/
def byteOf (g : Geom) (v : Vol) (chain : List ℕ) (p : ℕ) : UInt8 :=
  Blocks.itemAt g.clusterAddr g.clusterSize v.disk chain p

/-- Bytes up to `size`, with zeros after them. -/
def padded (size : ℕ) (bytes : ℕ → UInt8) : ℕ → UInt8 := fun p => if p < size then bytes p else 0

/-- Bytes with `n` bytes of `buffer` from `offset` on. -/
def overlaid (bytes : ℕ → UInt8) (buffer : Buf) (offset n : ℕ) : ℕ → UInt8 := fun p =>
  if offset ≤ p ∧ p < offset + n then buffer (p - offset) else bytes p

variable {g : Geom} {v v' w : Vol} {e : Env} {chain l : List ℕ} {d i c start p : ℕ} {path : Str}

theorem writeCluster_eq (hg : e.geom.Ok) (hio : ∀ n, e.io n = none)
    (hc : fatValidCluster e.geom c = true) (buf : Buf) :
    v.ataWriteExact e (e.geom.clusterAddr c) buf e.geom.clusterSize =
      ({ v.tick with disk := blit v.disk (e.geom.clusterAddr c) buf e.geom.clusterSize },
        true) := by
  have hpos := hg.clusterSize_pos
  have hdvd := hg.dvd_clusterSize
  have haddr := hg.addr_dvd (.inr hc)
  rw [hg.dirRegion_cluster hc] at haddr
  change 512 ∣ e.geom.clusterAddr c at haddr
  unfold ataWriteExact ataSectorSize
  rw [if_neg (by omega), if_neg (by omega), hio]

/-- The bytes of other clusters do not change when one is written. -/
theorem blit_other (hg : g.Ok) {c' : ℕ} (hc : fatValidCluster g c = true)
    (hc' : fatValidCluster g c' = true) (hne : c' ≠ c) (disk : ℕ → UInt8)
    (buf : Buf) {k : ℕ} (hk : k < g.clusterSize) :
      blit disk (g.clusterAddr c) buf g.clusterSize (g.clusterAddr c' + k) =
      disk (g.clusterAddr c' + k) := by
  have hapart := clusters_apart hg hc hc' hne.symm
  exact blit_outside (by omega)

theorem blit_own (disk : ℕ → UInt8) (buf : Buf) {k : ℕ} (hk : k < g.clusterSize) :
    blit disk (g.clusterAddr c) buf g.clusterSize (g.clusterAddr c + k) = buf k := by
  rw [blit_inside (by omega) (by omega), Nat.add_sub_cancel_left]

/-! ### The gap behind the old end -/

/-- The end of a file is in its last cluster, or at the end of it; a file of no bytes has one
cluster. -/
theorem fileClusters_cases (hpos : 0 < g.clusterSize) {n size : ℕ}
    (h : n + 1 = g.fileClusters size) :
    n * g.clusterSize + size % g.clusterSize = size ∧ size % g.clusterSize ≠ 0 ∨ n = 0 ∧ size = 0 ∨
      (n + 1) * g.clusterSize = size ∧ size % g.clusterSize = 0 ∧ size ≠ 0 := by
  unfold Geom.fileClusters at h
  generalize g.clusterSize = cs at hpos h ⊢
  have hdm := Nat.div_add_mod size cs
  have hmod := Nat.mod_lt size hpos
  by_cases hr : size % cs = 0
  · have hdiv : (size + cs - 1) / cs = size / cs := by
      have heq : size + cs - 1 = cs - 1 + cs * (size / cs) := by omega
      rw [heq, Nat.add_mul_div_left _ _ hpos, Nat.div_eq_of_lt (by omega), Nat.zero_add]
    rw [hdiv] at h
    by_cases hzero : size = 0
    · rw [hzero, Nat.zero_div] at h
      exact .inr (.inl ⟨by omega, hzero⟩)
    · have hq : 0 < size / cs :=
        Nat.div_pos (Nat.le_of_dvd (by omega) (Nat.dvd_of_mod_eq_zero hr)) hpos
      have hn : n + 1 = size / cs := by omega
      refine .inr (.inr ⟨?_, hr, hzero⟩)
      rw [hn, Nat.mul_comm]
      omega
  · have hdiv : (size + cs - 1) / cs = size / cs + 1 := by
      have heq : size + cs - 1 = size % cs - 1 + cs * (size / cs + 1) := by
        rw [Nat.mul_add, Nat.mul_one]
        omega
      rw [heq, Nat.add_mul_div_left _ _ hpos, Nat.div_eq_of_lt (by omega), Nat.zero_add]
    have hn : n = size / cs := by
      rw [hdiv] at h
      generalize size / cs = q at h ⊢
      omega
    refine .inl ⟨?_, hr⟩
    rw [hn, Nat.mul_comm]
    omega

/-- What `zeroGap` does when no transfer fails. -/
theorem zeroGap_eq (hg : e.geom.Ok) (hio : ∀ n, e.io n = none) {last : ℕ}
    (hlast : fatValidCluster e.geom last = true)
    (oldSize newSize : ℕ) : v.zeroGap e last oldSize newSize =
      if oldSize % e.geom.clusterSize = 0 then
        if oldSize = 0 then
          if e.heap v.clock then
          ({ v.tick with disk := blit v.disk (e.geom.clusterAddr last) zeros e.geom.clusterSize },
            true)
          else (v, false)
        else (v, true)
      else ({ v.tick.tick with disk := blit v.disk (e.geom.clusterAddr last) (fun k =>
        if oldSize % e.geom.clusterSize ≤ k ∧
          k < min ((newSize - (oldSize - oldSize % e.geom.clusterSize)) % 2 ^ 32)
            e.geom.clusterSize then 0
        else v.disk (e.geom.clusterAddr last + k)) e.geom.clusterSize }, true) := by
  unfold zeroGap ataReadExact
  dsimp only
  rw [hio]
  rw [if_pos rfl]
  dsimp only
  rw [writeCluster_eq hg hio hlast, writeCluster_eq hg hio hlast]
  by_cases hzero : oldSize % e.geom.clusterSize = 0
  · by_cases hold : oldSize = 0
    · rw [if_pos (.inr hold), if_pos hzero, if_pos hzero, if_pos hold]
    · rw [if_neg fun h => h.elim (fun hne => hne hzero) hold, if_pos hzero, if_neg hold]
  · rw [if_pos (.inl hzero), if_neg hzero, if_neg hzero]
    rfl

theorem zeroGap_disk (hg : e.geom.Ok) (hio : ∀ n, e.io n = none) {last : ℕ}
    (hlast : fatValidCluster e.geom last = true)
    (oldSize newSize : ℕ) {k : ℕ} (hk : k < e.geom.clusterSize) :
    (v.zeroGap e last oldSize newSize).1.disk (e.geom.clusterAddr last + k) =
      if oldSize % e.geom.clusterSize = 0 then
        if oldSize = 0 ∧ (v.zeroGap e last oldSize newSize).2 = true then 0
        else v.disk (e.geom.clusterAddr last + k)
      else if oldSize % e.geom.clusterSize ≤ k ∧
          k < min ((newSize - (oldSize - oldSize % e.geom.clusterSize)) % 2 ^ 32)
            e.geom.clusterSize then 0
      else v.disk (e.geom.clusterAddr last + k) := by
  rw [zeroGap_eq hg hio hlast]
  by_cases hzero : oldSize % e.geom.clusterSize = 0
  · simp only [if_pos hzero]
    by_cases hold : oldSize = 0
    · simp only [if_pos hold]
      cases e.heap v.clock with
      | true =>
        rw [if_pos rfl, if_pos ⟨hold, rfl⟩]
        exact blit_own _ _ hk
      | false => rw [if_neg Bool.false_ne_true, if_neg fun h => Bool.false_ne_true h.2]
    · simp only [if_neg hold]
      rw [if_neg fun h => hold h.1]
  · simp only [if_neg hzero]
    exact blit_own _ _ hk

/-- The bytes of a file are kept, and those from its old end on to the new one are zero, as far as
its chain goes. -/
theorem zeroGap_bytes (hg : e.geom.Ok) (hio : ∀ n, e.io n = none)
    (hchain : IsChain e.geom v.table start chain) {oldSize newSize last : ℕ}
    (hlen : chain.length = e.geom.fileClusters oldSize) (hlt : oldSize < newSize)
    (hmax : newSize < 2 ^ 32)
    (hlast : chain.getLast? = some last) (hp : p < chain.length * e.geom.clusterSize) :
    (p < oldSize →
      byteOf e.geom (v.zeroGap e last oldSize newSize).1 chain p = byteOf e.geom v chain p) ∧
      ((v.zeroGap e last oldSize newSize).2 = true → oldSize ≤ p → p < newSize →
        byteOf e.geom (v.zeroGap e last oldSize newSize).1 chain p = 0) := by
  have hpos := hg.clusterSize_pos
  have hvlast := hchain.valid last (List.mem_of_getLast? hlast)
  obtain ⟨front, rfl⟩ : ∃ front, chain = front ++ [last] :=
    ⟨_, (List.dropLast_append_getLast? last hlast).symm⟩
  have hnotMem : last ∉ front := fun hmem =>
    (List.disjoint_of_nodup_append hchain.linked.nodup) hmem List.mem_cons_self
  rw [List.length_append, List.length_singleton] at hlen hp
  have hdm := Nat.div_add_mod oldSize e.geom.clusterSize
  have hmod := Nat.mod_lt oldSize hpos
  have hfront := fileClusters_cases hpos hlen
  unfold byteOf
  by_cases hin : p < front.length * e.geom.clusterSize
  · have hsame : Blocks.itemAt e.geom.clusterAddr e.geom.clusterSize
          (v.zeroGap e last oldSize newSize).1.disk (front ++ [last]) p =
        Blocks.itemAt e.geom.clusterAddr e.geom.clusterSize v.disk (front ++ [last]) p := by
      rw [Blocks.itemAt_left hin, Blocks.itemAt_left hin]
      refine Blocks.itemAt_congr hpos (fun c hc k hk => zeroGap_frame ?_ _ _) hin
      have hne : c ≠ last := fun heq => hnotMem (heq ▸ hc)
      have hapart := clusters_apart hg (hchain.valid c (List.mem_append_left _ hc)) hvlast hne
      omega
    refine ⟨fun _ => hsame, fun _ hge _ => ?_⟩
    rcases hfront with ⟨hf, -⟩ | ⟨hf, -⟩ | ⟨hf, -⟩
    · omega
    · rw [hf, Nat.zero_mul] at hin
      omega
    · rw [Nat.add_mul] at hf
      omega
  · rw [Blocks.itemAt_right hpos (by omega), Blocks.itemAt_right hpos (by omega)]
    have hk : p - front.length * e.geom.clusterSize < e.geom.clusterSize := by
      rw [Nat.add_mul] at hp
      omega
    rw [Blocks.itemAt_head hk, Blocks.itemAt_head hk, zeroGap_disk hg hio hvlast oldSize newSize hk]
    generalize hF : front.length * e.geom.clusterSize = F at hin hk hfront ⊢
    rcases hfront with ⟨hf, hr⟩ | ⟨hf, hzero⟩ | ⟨hf, hr, hzero⟩
    · rw [if_neg hr, show newSize - (oldSize - oldSize % e.geom.clusterSize) = newSize - F by omega,
        Nat.mod_eq_of_lt (show newSize - F < 2 ^ 32 by omega)]
      refine ⟨fun hold => if_neg (by omega), fun _ hge hnew => if_pos ⟨by omega, by omega⟩⟩
    · rw [hzero, Nat.zero_mod, if_pos rfl]
      exact ⟨fun hold => absurd hold (by omega), fun hok _ _ => if_pos ⟨rfl, hok⟩⟩
    · rw [if_pos hr, if_neg fun h => hzero h.1]
      refine ⟨fun _ => rfl, fun _ hge _ => ?_⟩
      rw [Nat.add_mul, hF] at hf
      omega

/-! ### Growing -/

theorem le_fileClusters (hpos : 0 < g.clusterSize) (size : ℕ) :
    size ≤ g.fileClusters size * g.clusterSize := by
  obtain ⟨n, hn⟩ : ∃ n, n + 1 = g.fileClusters size :=
    ⟨g.fileClusters size - 1, by unfold Geom.fileClusters; omega⟩
  rw [← hn]
  have hmod := Nat.mod_lt size hpos
  rcases fileClusters_cases hpos hn with ⟨h, -⟩ | ⟨-, h⟩ | ⟨h, -⟩
  · rw [Nat.add_mul]
    omega
  · omega
  · exact h.ge

/-- A byte of a cluster in use is in no free cluster and in no table. -/
theorem cluster_spared (hg : g.Ok) (hc : fatValidCluster g c = true) (hused : v.table c ≠ 0) {k : ℕ}
    (hk : k < g.clusterSize) :
    (∀ c', fatValidCluster g c' = true → v.table c' = 0 →
      g.clusterAddr c + k < g.clusterAddr c' ∨
      g.clusterAddr c' + g.clusterSize ≤ g.clusterAddr c + k) ∧
      ¬g.TableArea (g.clusterAddr c + k) := by
  refine ⟨fun c' hc' hzero => ?_, fun hx => ?_⟩
  · have hne : c ≠ c' := fun heq => hused (heq ▸ hzero)
    have := clusters_apart hg hc hc' hne
    omega
  · have := hg.table_lt hx (.inr hc)
    rw [hg.dirRegion_cluster hc] at this
    change _ < g.clusterAddr c at this
    omega

section Grow

variable (hg : e.geom.Ok) (hio : ∀ n, e.io n = none) (hchain : IsChain e.geom v.table start chain)
  {oldSize newSize : ℕ}
  (hlen : chain.length = e.geom.fileClusters oldSize) (hlt : oldSize < newSize)
    (hmax : newSize ≤ 2 ^ 32 - e.geom.clusterSize)

include hg hchain hlen hlt hmax

/-- What the extension leaves in the clusters of the chain is what `zeroGap` left there. -/
theorem extend_disk : ∃ last, chain.getLast? = some last ∧
    (∀ c ∈ chain, ∀ k < e.geom.clusterSize,
      (v.fatExtendClusterChain e start oldSize newSize).1.disk (e.geom.clusterAddr c + k) =
      (v.zeroGap e last oldSize newSize).1.disk (e.geom.clusterAddr c + k)) ∧
    ((v.fatExtendClusterChain e start oldSize newSize).2 ≠ none →
      (v.zeroGap e last oldSize newSize).2 = true) := by
  have hpos := hg.clusterSize_pos
  have hle := hg.clusterSize_le hchain.valid_start
  have hone : 0 < chain.length := by
    rw [hlen]
    unfold Geom.fileClusters
    omega
  have hold : oldClusters e.geom oldSize = chain.length := by
    unfold oldClusters
    rw [hlen, clustersOf_eq hpos (by omega) hle]
    unfold Geom.fileClusters
    generalize (oldSize + e.geom.clusterSize - 1) / e.geom.clusterSize = k
    split_ifs <;> omega
  have hwalk := walkChain_last hchain.linked (n := chain.length - 1) (by omega)
  rw [fatExtendClusterChain_eq, if_neg (by omega), hchain.valid_start, if_neg (by decide), hold]
  generalize walkChain e.geom v.table (chain.length - 1) start = last at hwalk ⊢
  refine ⟨last, hwalk, ?_⟩
  have hztable := zeroGap_table e v last oldSize newSize
  dsimp only
  generalize v.zeroGap e last oldSize newSize = z at hztable ⊢
  cases hz : z.2 with
  | false =>
    rw [if_pos (by decide)]
    exact ⟨fun _ _ _ _ => rfl, fun hne => absurd rfl hne⟩
  | true =>
    rw [if_neg (by decide)]
    refine ⟨fun c hc k hk => ?_, fun _ => rfl⟩
    have hspared :=
      cluster_spared (v := z.1) hg (hchain.valid c hc) (hztable ▸ hchain.ne_zero c hc) hk
    exact extendBy_frame hg hspared.1 hspared.2 _ _ _

include hio

/-- An extension keeps the bytes of a file. -/
theorem extend_keeps (hp : p < oldSize) :
    byteOf e.geom (v.fatExtendClusterChain e start oldSize newSize).1 chain p =
    byteOf e.geom v chain p := by
  have hpos := hg.clusterSize_pos
  have hin : p < chain.length * e.geom.clusterSize := by
    have := le_fileClusters hpos oldSize
    rw [hlen]
    omega
  obtain ⟨last, hlast, hdisk, -⟩ := extend_disk hg hchain hlen hlt hmax
  have hgap := (zeroGap_bytes hg hio hchain hlen hlt (by omega) hlast hin).1 hp
  exact (Blocks.itemAt_congr hpos hdisk hin).trans hgap

/-- One that succeeds leaves a chain of the right length, with zeros from the old end on to the new
one. -/
theorem extend_bytes {n : ℕ}
    (hsome : (v.fatExtendClusterChain e start oldSize newSize).2 = some n) :
    ∃ fs, (chain ++ fs).length = e.geom.fileClusters newSize ∧
      Grown e.geom v start chain fs (v.fatExtendClusterChain e start oldSize newSize).1 ∧
      ∀ p < newSize, byteOf e.geom (v.fatExtendClusterChain e start oldSize newSize).1
        (chain ++ fs) p =
        padded oldSize (byteOf e.geom v chain) p := by
  have hpos := hg.clusterSize_pos
  obtain ⟨hn, fs, hfs, hgrown⟩ := (extend_spec hg hchain hlen hlt hmax).2 n hsome
  have hlength : (chain ++ fs).length = e.geom.fileClusters newSize := by
    rw [List.length_append, hfs, hn, hlen]
    have hmono : (oldSize + e.geom.clusterSize - 1) / e.geom.clusterSize ≤
        (newSize + e.geom.clusterSize - 1) / e.geom.clusterSize :=
      Nat.div_le_div_right (by omega)
    have hnew : 1 ≤ (newSize + e.geom.clusterSize - 1) / e.geom.clusterSize :=
      (Nat.one_le_div_iff hpos).mpr (by omega)
    unfold Geom.fileClusters
    omega
  refine ⟨fs, hlength, hgrown, fun p hp => ?_⟩
  unfold padded
  obtain ⟨last, hlast, hdisk, hok⟩ := extend_disk hg hchain hlen hlt hmax
  by_cases hin : p < chain.length * e.geom.clusterSize
  · have hgap := zeroGap_bytes hg hio hchain hlen hlt (by omega) hlast hin
    have hsame : byteOf e.geom (v.fatExtendClusterChain e start oldSize newSize).1 (chain ++ fs) p =
        byteOf e.geom (v.zeroGap e last oldSize newSize).1 chain p := by
      unfold byteOf
      rw [Blocks.itemAt_left hin]
      exact Blocks.itemAt_congr hpos hdisk hin
    rw [hsame]
    split_ifs with hold
    · exact hgap.1 hold
    · exact hgap.2 (hok (by rw [hsome]; exact Option.some_ne_none n)) (by omega) hp
  · have hnot : ¬p < oldSize := by
      have := le_fileClusters hpos oldSize
      rw [hlen] at hin
      omega
    have hlt' : p - chain.length * e.geom.clusterSize < fs.length * e.geom.clusterSize := by
      have hall := le_fileClusters hpos newSize
      rw [← hlength, List.length_append, Nat.add_mul] at hall
      omega
    rw [if_neg hnot]
    unfold byteOf
    rw [Blocks.itemAt_right hpos (by omega)]
    obtain ⟨f, hf, heq⟩ := Blocks.exists_block e.geom.clusterAddr
      (v.fatExtendClusterChain e start oldSize newSize).1.disk hlt'
    rw [heq]
    exact (hgrown.free f hf).2.2 _ (Nat.mod_lt _ hpos)

end Grow

/-! ### Shrinking -/

theorem walkChain_eq {table : ℕ → ℕ} (l₁ : List ℕ) : ∀ {start cur : ℕ} {l₂ : List ℕ},
    Chain.Linked (nextOf g table) (some start) (l₁ ++ cur :: l₂) →
    walkChain g table l₁.length start = cur := by
  induction l₁ with
  | nil => exact fun h => Option.some.inj h.1
  | cons a l₁ ih =>
    intro start cur l₂ h
    obtain rfl := Option.some.inj h.1
    obtain ⟨b, hb⟩ : ∃ b, nextOf g table start = some b := by
      cases l₁ with
      | nil => exact ⟨cur, h.2.1⟩
      | cons b l₁ => exact ⟨b, h.2.1⟩
    obtain ⟨hvalid, rfl⟩ := nextOf_valid hb
    rw [List.length_cons, walkChain, if_pos hvalid]
    exact ih (hb ▸ h.2)

/-- A chain is cut after cluster `cur`, and the rest of it freed. -/
structure Cut (g : Geom) (v : Vol) (chain kept : List ℕ) (start : ℕ) (v' : Vol) : Prop where
  isChain : IsChain g v'.table start kept
  subset : ∀ c ∈ kept, c ∈ chain
  freed : ∀ c ∈ chain, c ∉ kept → v'.table c = 0
  others : ∀ c, c ∉ chain → v'.table c = v.table c
  disk : ∀ x, ¬g.TableArea x → v'.disk x = v.disk x

/-- `fat_shrink_cluster_chain` cuts the chain to the length of the new size. -/
theorem shrink_spec (hg : e.geom.Ok) (hio : ∀ n, e.io n = none)
    (hchain : IsChain e.geom v.table start chain) {oldSize newSize : ℕ}
    (hlen : chain.length = e.geom.fileClusters oldSize) (hlt : newSize < oldSize)
    (hmax : oldSize ≤ 2 ^ 32 - e.geom.clusterSize) :
    (v.fatShrinkClusterChain e start oldSize newSize).2.isSome = true ∧ ∃ kept rest,
      chain = kept ++ rest ∧
      kept.length = e.geom.fileClusters newSize ∧
      Cut e.geom v chain kept start (v.fatShrinkClusterChain e start oldSize newSize).1 := by
  obtain ⟨hsome, hdisk⟩ := fatShrinkClusterChain_spec hg hio hchain oldSize newSize
  refine ⟨hsome, ?_⟩
  have hpos := hg.clusterSize_pos
  have hle := hg.clusterSize_le hchain.valid_start
  have hmono : (newSize + e.geom.clusterSize - 1) / e.geom.clusterSize ≤
      (oldSize + e.geom.clusterSize - 1) / e.geom.clusterSize :=
    Nat.div_le_div_right (by omega)
  unfold fatShrinkClusterChain at hdisk ⊢
  dsimp only at hdisk ⊢
  rw [hchain.valid_start, if_neg (by decide), clustersOf_eq hpos hmax hle,
    clustersOf_eq hpos (by omega) hle] at hdisk ⊢
  unfold Geom.fileClusters at hlen ⊢
  generalize (oldSize + e.geom.clusterSize - 1) / e.geom.clusterSize = old at *
  generalize (newSize + e.geom.clusterSize - 1) / e.geom.clusterSize = new at *
  by_cases hsame : old ≤ new
  · rw [if_pos hsame]
    refine ⟨chain, [], (List.append_nil chain).symm, by omega, hchain, fun _ hc => hc,
      fun c hc hnot => absurd hc hnot, fun _ _ => rfl,
      fun _ _ => rfl⟩
  rw [if_neg hsame] at hdisk ⊢
  obtain ⟨front, cur, rest, rfl, hfront⟩ :
      ∃ front cur rest, chain = front ++ cur :: rest ∧ front.length = new - 1 := by
    have hn : new - 1 < chain.length := by omega
    refine ⟨chain.take (new - 1), chain[new - 1], chain.drop (new - 1 + 1), ?_,
      List.length_take_of_le hn.le⟩
    rw [← List.drop_eq_getElem_cons hn, List.take_append_drop]
  rw [← hfront, walkChain_eq front hchain.linked] at hdisk ⊢
  have hnodup := hchain.linked.nodup
  have hcur := hchain.valid cur (List.mem_append_right _ List.mem_cons_self)
  have hrest : Chain.Linked (nextOf e.geom v.table) (nextOf e.geom v.table cur) rest :=
    hchain.linked.suffix.2
  have hnotRest : cur ∉ rest :=
    fun hmem => (List.nodup_cons.mp (List.Nodup.of_append_right hnodup)).1 hmem
  have hnotFront : cur ∉ front :=
    fun hmem => (List.disjoint_of_nodup_append hnodup) hmem List.mem_cons_self
  rw [update_valid hcur] at hdisk ⊢
  dsimp only at hdisk ⊢
  unfold freeFrom at hdisk ⊢
  have hrest' : Chain.Linked (nextOf e.geom (Function.update v.table cur 0xFFFF))
      (nextOf e.geom v.table cur) rest := by
    refine hrest.congr fun b hb => ?_
    unfold nextOf
    rw [Function.update_of_ne]
    rintro rfl
    exact hnotRest hb
  have hcount : rest.length < e.geom.noClusters + 1 := by
    have := length_le_of_valid hnodup hchain.valid
    rw [List.length_append, List.length_cons] at this
    omega
  obtain ⟨htable, -⟩ := freeChain_spec (e.geom.noClusters + 1) (c := v.table cur)
    (f := ⟨⟨v.disk, Function.update v.table cur 0xFFFF, Function.update v.dirty cur true, v.clock⟩,
      cur, cur, 0, true⟩) hrest' rfl hcount
  generalize freeChain e.geom (e.geom.noClusters + 1) (v.table cur)
    ⟨⟨v.disk, Function.update v.table cur 0xFFFF, Function.update v.dirty cur true, v.clock⟩, cur,
      cur, 0, true⟩ = f at htable hdisk ⊢
  have hflush := (flushed_fatTableFlushCache hg f.vol f.lo f.hi).table
  generalize f.vol.fatTableFlushCache e f.lo f.hi = w at hflush hdisk ⊢
  rw [htable] at hflush
  dsimp only at hflush
  have hkept : ∀ c, c ∉ rest → w.1.table c = Function.update v.table cur 0xFFFF c := fun c hc => by
    rw [hflush]
    exact if_neg hc
  have hend : w.1.table cur = 0xFFFF := by rw [hkept cur hnotRest, Function.update_self]
  refine ⟨front ++ [cur], rest, by rw [List.append_assoc]; rfl, ?_,
    ⟨hchain.valid_start, ?_, fun c hc => ?_⟩, fun c hc => ?_, fun c hc hnot => ?_,
    fun c hc => ?_, hdisk⟩
  · rw [List.length_append, List.length_singleton]
    omega
  · refine hchain.linked.cut (fun b hb => ?_) ?_
    · have hne : b ≠ cur := fun heq => hnotFront (heq ▸ hb)
      have hbrest : b ∉ rest :=
        fun hmem => (List.disjoint_of_nodup_append hnodup) hb (List.mem_cons_of_mem _ hmem)
      unfold nextOf
      rw [hkept b hbrest, Function.update_of_ne hne]
    · unfold nextOf
      rw [hend, not_valid_of_ge (by decide), if_neg Bool.false_ne_true]
  · rw [List.getLast?_append, List.getLast?_singleton, Option.some_or] at hc
    rw [← Option.some.inj hc, hend]
    decide
  · rcases List.mem_append.mp hc with hc | hc
    · exact List.mem_append_left _ hc
    · exact List.mem_append_right _ (List.mem_singleton.mp hc ▸ List.mem_cons_self)
  · rw [hflush]
    refine if_pos ?_
    rcases List.mem_append.mp hc with hc | hc
    · exact absurd (List.mem_append_left _ hc) hnot
    · rcases List.mem_cons.mp hc with rfl | hc
      · exact absurd (List.mem_append_right _ List.mem_cons_self) hnot
      · exact hc
  · have hne : c ≠ cur := fun heq => hc (heq ▸ List.mem_append_right _ List.mem_cons_self)
    rw [hkept c fun hmem => hc (List.mem_append_right _ (List.mem_cons_of_mem _ hmem)),
      Function.update_of_ne hne]

/-! ### Writing -/

/-- `b` bytes of the buffer, from `bytesWritten` on, were stored in the clusters of `l`, from
`writeOffset` on. -/
structure Stored (g : Geom) (l : List ℕ) (v : Vol) (buffer : Buf)
    (writeOffset bytesRemaining bytesWritten b : ℕ) (r : Vol × Option ℕ) : Prop where
  count : r.2 = some (bytesWritten + b)
  le : b ≤ bytesRemaining
  bytes : ∀ p < l.length * g.clusterSize, byteOf g r.1 l p =
    if writeOffset ≤ p ∧ p < writeOffset + b then buffer (bytesWritten + (p - writeOffset))
    else byteOf g v l p

theorem Stored.nothing (g : Geom) (l : List ℕ) (v : Vol) (buffer : Buf)
    (writeOffset bytesRemaining bytesWritten : ℕ) :
    Stored g l v buffer writeOffset bytesRemaining bytesWritten 0 (v, some bytesWritten) :=
  ⟨rfl, Nat.zero_le _, fun _ _ => (if_neg (by omega)).symm⟩

/-- One turn of the loop: the cluster with what it takes of the buffer. -/
def putCluster (g : Geom) (v : Vol) (buffer : Buf) (cur writeOffset consumed bytesWritten : ℕ) :
    ℕ → UInt8 :=
  blit v.disk (g.clusterAddr cur) (fun k =>
    if writeOffset ≤ k ∧ k < writeOffset + consumed then buffer (bytesWritten + (k - writeOffset))
    else v.disk (g.clusterAddr cur + k))
    g.clusterSize

theorem writeLoop_succ (hg : e.geom.Ok) (hio : ∀ n, e.io n = none) (buffer : Buf)
    (mapped : ℕ → ℕ → Bool) (n : ℕ)
    {cur writeOffset bytesRemaining bytesWritten : ℕ} (hcur : fatValidCluster e.geom cur = true)
    (hmore : bytesRemaining ≠ 0)
    (hmapped : mapped bytesWritten (min (e.geom.clusterSize - writeOffset) bytesRemaining) = true) :
    ∃ w : Vol, w.table = v.table ∧ w.disk = putCluster e.geom v buffer cur writeOffset
        (min (e.geom.clusterSize - writeOffset) bytesRemaining) bytesWritten ∧
      writeLoop e buffer mapped (n + 1) cur writeOffset bytesRemaining bytesWritten v =
        if fatValidCluster e.geom (v.table cur) then
          writeLoop e buffer mapped n (v.table cur) 0
            (bytesRemaining - min (e.geom.clusterSize - writeOffset) bytesRemaining)
            (bytesWritten + min (e.geom.clusterSize - writeOffset) bytesRemaining) w
        else (w, some (bytesWritten + min (e.geom.clusterSize - writeOffset) bytesRemaining)) := by
  rw [writeLoop]
  unfold ataReadExact
  rw [hio, if_pos rfl]
  dsimp only
  rw [if_neg hmore, hmapped, if_neg (by decide), writeCluster_eq hg hio hcur,
    writeCluster_eq hg hio hcur]
  dsimp only
  rw [if_pos rfl, if_pos rfl]
  by_cases hpart : 0 < writeOffset ∨ bytesRemaining < e.geom.clusterSize
  · rw [if_pos hpart]
    exact ⟨⟨_, v.table, v.dirty, v.clock + 1 + 1⟩, rfl, rfl, rfl⟩
  · rw [if_neg hpart]
    refine ⟨⟨blit v.disk (e.geom.clusterAddr cur)
      (fun k => buffer (bytesWritten + k)) e.geom.clusterSize, v.table, v.dirty,
      v.clock + 1⟩, rfl, ?_, rfl⟩
    funext x
    unfold putCluster blit
    dsimp only
    by_cases hin : e.geom.clusterAddr cur ≤ x ∧ x < e.geom.clusterAddr cur + e.geom.clusterSize
    · rw [if_pos hin, if_pos hin, if_pos (by omega), show writeOffset = 0 by omega, Nat.sub_zero]
    · rw [if_neg hin, if_neg hin]

theorem writeLoop_stored (hg : e.geom.Ok) (hio : ∀ n, e.io n = none) (buffer : Buf)
    (mapped : ℕ → ℕ → Bool) (n : ℕ) :
    ∀ {cur writeOffset bytesRemaining : ℕ} (bytesWritten : ℕ) {v : Vol} {l : List ℕ},
    Chain.Linked (nextOf e.geom v.table) (some cur) l → (∀ c ∈ l, fatValidCluster e.geom c = true) →
      writeOffset < e.geom.clusterSize →
    bytesRemaining ≤ n → ∃ b, Stored e.geom l v buffer writeOffset bytesRemaining bytesWritten b
        (writeLoop e buffer mapped n cur writeOffset bytesRemaining bytesWritten v) ∧
      ((∀ o k, mapped o k = true) → writeOffset + bytesRemaining ≤ l.length * e.geom.clusterSize →
        b = bytesRemaining) := by
  induction n with
  | zero =>
    intro cur writeOffset bytesRemaining bytesWritten v l _ _ _ hn
    exact ⟨0, .nothing _ _ _ _ _ _ _, fun _ _ => by omega⟩
  | succ n ih =>
    intro cur writeOffset bytesRemaining bytesWritten v l h hvalid hoff hn
    have hpos := hg.clusterSize_pos
    by_cases hmore : bytesRemaining = 0
    · rw [writeLoop, if_pos hmore]
      exact ⟨0, .nothing _ _ _ _ _ _ _, fun _ _ => hmore.symm⟩
    cases hmapped : mapped bytesWritten (min (e.geom.clusterSize - writeOffset) bytesRemaining) with
    | false =>
      rw [writeLoop, if_neg hmore]
      dsimp only
      rw [hmapped, if_pos (by decide)]
      refine ⟨0, .nothing _ _ _ _ _ _ _, fun hall _ => ?_⟩
      rw [hall] at hmapped
      exact absurd hmapped.symm Bool.false_ne_true
    | true =>
      obtain _ | ⟨a, l⟩ := l
      · exact absurd h.head_eq (by simp)
      obtain rfl := Option.some.inj h.1
      have hcur := hvalid cur List.mem_cons_self
      have hnot : cur ∉ l := (List.nodup_cons.mp h.nodup).1
      obtain ⟨w, htable, hdisk, heq⟩ :=
        writeLoop_succ (v := v) hg hio buffer mapped n hcur hmore hmapped
      rw [heq]
      have hlength : (cur :: l).length * e.geom.clusterSize =
          l.length * e.geom.clusterSize + e.geom.clusterSize := by
        rw [List.length_cons, Nat.succ_mul]
      generalize hconsumed :
        min (e.geom.clusterSize - writeOffset) bytesRemaining = consumed at hdisk ⊢
      have hother : ∀ c ∈ l, ∀ k < e.geom.clusterSize,
          w.disk (e.geom.clusterAddr c + k) = v.disk (e.geom.clusterAddr c + k) := by
        intro c hc k hk
        rw [hdisk]
        exact blit_other hg hcur (hvalid c (List.mem_cons_of_mem _ hc))
          (fun heq => hnot (heq ▸ hc)) _ _ hk
      have hown : ∀ k < e.geom.clusterSize, w.disk (e.geom.clusterAddr cur + k) =
          if writeOffset ≤ k ∧ k < writeOffset + consumed then
            buffer (bytesWritten + (k - writeOffset))
          else v.disk (e.geom.clusterAddr cur + k) := by
        intro k hk
        rw [hdisk]
        exact blit_own _ _ hk
      -- the rest of the chain gets the rest of the bytes, if there are any
      have hrest : ∃ b r,
              (if fatValidCluster e.geom (v.table cur) then
                writeLoop e buffer mapped n (v.table cur) 0
            (bytesRemaining - consumed) (bytesWritten + consumed) w
            else (w, some (bytesWritten + consumed))) = r ∧
          Stored e.geom l w buffer 0 (bytesRemaining - consumed) (bytesWritten + consumed) b r ∧
          ((∀ o k, mapped o k = true) → bytesRemaining - consumed ≤ l.length * e.geom.clusterSize →
            b = bytesRemaining - consumed) ∧
          ∀ k < e.geom.clusterSize,
            r.1.disk (e.geom.clusterAddr cur + k) = w.disk (e.geom.clusterAddr cur + k) := by
        by_cases hnext : fatValidCluster e.geom (v.table cur) = true
        · rw [if_pos hnext]
          have hlinked : Chain.Linked (nextOf e.geom w.table) (some (v.table cur)) l := by
            have hsome : nextOf e.geom v.table cur = some (v.table cur) := if_pos hnext
            rw [htable, ← hsome]
            exact h.2
          obtain ⟨b, hstored, hall⟩ :=
            ih (bytesWritten + consumed) hlinked
              (fun c hc => hvalid c (List.mem_cons_of_mem _ hc)) hpos
            (by omega : bytesRemaining - consumed ≤ n)
          refine ⟨b, _, rfl, hstored, fun hm hle => hall hm (by omega), fun k hk => ?_⟩
          have hframe := writeLoop_writtenIn buffer mapped n (bytesRemaining - consumed)
            (bytesWritten + consumed) hlinked (Nat.zero_le _)
          refine hframe.disk _ fun c hc => ?_
          have hne : cur ≠ c := fun heq => hnot (heq ▸ hc)
          have hapart := clusters_apart hg hcur (hvalid c (List.mem_cons_of_mem _ hc)) hne
          omega
        · rw [if_neg hnext]
          have hnil : l = [] := by
            have hnone : nextOf e.geom v.table cur = none := if_neg hnext
            have htail := h.2
            rw [hnone] at htail
            exact List.head?_eq_none_iff.mp htail.head_eq.symm
          refine ⟨0, _, rfl, .nothing _ _ _ _ _ _ _, fun _ hle => ?_, fun _ _ => rfl⟩
          rw [hnil, List.length_nil, Nat.zero_mul] at hle
          omega
      obtain ⟨b, r, hr, hstored, hall, hframe⟩ := hrest
      rw [hr]
      have hble := hstored.le
      refine ⟨consumed + b, ⟨?_, by omega, fun p hp => ?_⟩, fun hm hle => ?_⟩
      · rw [hstored.count, Nat.add_assoc]
      · unfold byteOf
        by_cases hhead : p < e.geom.clusterSize
        · rw [Blocks.itemAt_head hhead, Blocks.itemAt_head hhead, hframe p hhead, hown p hhead]
          by_cases hin : writeOffset ≤ p ∧ p < writeOffset + consumed
          · rw [if_pos hin, if_pos (by omega)]
          · rw [if_neg hin, if_neg (by omega)]
        · have htail : p - e.geom.clusterSize < l.length * e.geom.clusterSize := by omega
          rw [Blocks.itemAt_tail hpos (by omega), Blocks.itemAt_tail hpos (by omega)]
          have hbytes := hstored.bytes _ htail
          unfold byteOf at hbytes
          rw [hbytes, Blocks.itemAt_congr hpos hother htail]
          by_cases hin : 0 ≤ p - e.geom.clusterSize ∧ p - e.geom.clusterSize < 0 + b
          · rw [if_pos hin, if_pos (by omega)]
            congr 1
            omega
          · rw [if_neg hin, if_neg (by omega)]
      · have := hall hm (by omega)
        omega

/-! ### The file afterwards -/

/-- Entry `i` of directory `d`, a file with clusters `chain`, has `size` bytes now, the given ones,
in clusters `chain'`; clusters that it has no more are free, and no other entry or cluster in use
has changed. -/
structure Reshaped (g : Geom) (v : Vol) (d i : ℕ) (chain : List ℕ) (size : ℕ) (bytes : ℕ → UInt8)
    (v' : Vol) (chain' : List ℕ) : Prop where
  isChain : IsChain g v'.table (entryIn g v d i).firstClusterNo chain'
  length : chain'.length = g.fileClusters size
  mem : ∀ c ∈ chain', c ∈ chain ∨ v.table c = 0
  freed : ∀ c ∈ chain, c ∉ chain' → v'.table c = 0
  table : ∀ c, c ∉ chain → c ∉ chain' → v'.table c = v.table c
  entry : entryIn g v' d i = (entryIn g v d i).setFileSize size
  others : ∀ d' i', Aside g v chain d' → i' < (dirRegion g d').entries → (d', i') ≠ (d, i) →
    entryIn g v' d' i' = entryIn g v d' i'
  bytes : ∀ p < size, byteOf g v' chain' p = bytes p

/-- The bytes of a cluster are those of the entries it would have as a directory. -/
theorem cluster_of_entries (hg : g.Ok) (hc : fatValidCluster g c = true)
    (h : ∀ j < (dirRegion g c).entries, entryIn g v' c j = entryIn g v c j) {k : ℕ}
    (hk : k < g.clusterSize) :
    v'.disk (g.clusterAddr c + k) = v.disk (g.clusterAddr c + k) := by
  rw [hg.dirRegion_cluster hc] at h
  have hdvd : 32 * (g.clusterSize / 32) = g.clusterSize :=
    Nat.mul_div_cancel' (Dvd.dvd.trans (by decide) hg.dvd_clusterSize)
  have hbyte := congrFun
    (h (k / 32) (by unfold Region.entries Geom.clusterRegion; dsimp only; omega)) (k % 32)
  unfold entryIn entryAt Region.buf at hbyte
  rw [hg.dirRegion_cluster hc, if_pos (Nat.mod_lt _ (by decide)), if_pos (Nat.mod_lt _ (by decide)),
    Nat.div_add_mod] at hbyte
  exact hbyte

theorem Replaced.cluster {dir : Raw} (hg : g.Ok) (h : Replaced g d i dir v v')
    (hc : fatValidCluster g c = true) (hne : c ≠ d) {k : ℕ}
    (hk : k < g.clusterSize) : v'.disk (g.clusterAddr c + k) = v.disk (g.clusterAddr c + k) :=
  cluster_of_entries hg hc
    (fun j hj => h.others c j (.inr hc) hj fun heq => hne (Prod.mk.inj heq).1) hk

section File

variable (hg : e.geom.Ok) (hfile : IsFile e.geom v d i chain)

include hfile

/-- A call that changes neither the table nor an entry, and keeps the bytes. -/
theorem IsFile.reshaped_same (htable : v'.table = v.table) (hkept : DirsKept e.geom chain v v')
    (hbytes : ∀ p < (entryIn e.geom v d i).fileSize,
      byteOf e.geom v' chain p = byteOf e.geom v chain p) :
    Reshaped e.geom v d i chain (entryIn e.geom v d i).fileSize
      (byteOf e.geom v chain) v' chain where
  isChain := htable.symm ▸ hfile.isChain
  length := hfile.length
  mem := fun _ hc => .inl hc
  freed := fun _ hc hnot => absurd hc hnot
  table := fun c _ _ => congrFun htable c
  entry := by
    rw [setFileSize_self]
    exact hkept d hfile.aside i hfile.slot
  others := fun d' i' hd' hi' _ => hkept d' hd' i' hi'
  bytes := hbytes

include hg

/-- A file has no cluster that its directory has. -/
theorem IsFile.ne_dir (hc : fatValidCluster e.geom c = true) (hmem : c ∈ chain ∨ v.table c = 0) :
    c ≠ d := by
  rintro rfl
  rcases hmem with hmem | hzero
  · exact hfile.apart hmem
  · exact hfile.taken.elim (hg.ne_zero_of_valid hc) fun hne => hne hzero

end File

/-- The clusters `l` are ready for a write that makes the file `size` bytes long. -/
structure Ready (g : Geom) (v : Vol) (start : ℕ) (chain : List ℕ) (oldSize size : ℕ) (w : Vol)
    (l : List ℕ) : Prop where
  isChain : IsChain g w.table start l
  length : l.length = g.fileClusters size
  mem : ∀ c ∈ l, c ∈ chain ∨ v.table c = 0
  keeps : ∀ c ∈ chain, c ∈ l
  table : ∀ c, c ∉ chain → c ∉ l → w.table c = v.table c
  bytes : ∀ p < size, byteOf g w l p = padded oldSize (byteOf g v chain) p

/-- What the loop makes of clusters that are ready. -/
theorem Ready.write (hg : e.geom.Ok) (hio : ∀ n, e.io n = none) {oldSize size offset n cur : ℕ}
    (hready : Ready e.geom v start chain oldSize size w l)
    (buffer : Buf) (mapped : ℕ → ℕ → Bool) (hmapped : ∀ o k, mapped o k = true)
    (hskip : skipTo e.geom w.table (offset / e.geom.clusterSize) start = some cur)
    (hle : offset + n ≤ size) :
    (writeLoop e buffer mapped n cur (offset % e.geom.clusterSize) n 0 w).2 = some n ∧
      (writeLoop e buffer mapped n cur (offset % e.geom.clusterSize) n 0 w).1.table = w.table ∧
      (∀ x, (∀ c ∈ l, x < e.geom.clusterAddr c ∨ e.geom.clusterAddr c + e.geom.clusterSize ≤ x) →
        (writeLoop e buffer mapped n cur (offset % e.geom.clusterSize) n 0 w).1.disk x = w.disk x) ∧
      ∀ p < size, byteOf e.geom
        (writeLoop e buffer mapped n cur (offset % e.geom.clusterSize) n 0 w).1 l p =
        overlaid (padded oldSize (byteOf e.geom v chain)) buffer offset n p := by
  have hpos := hg.clusterSize_pos
  obtain ⟨l₁, l₂, rfl, hlen, hlinked⟩ := skipTo_suffix _ hready.isChain.linked hskip
  have hvalid : ∀ c ∈ l₂, fatValidCluster e.geom c = true :=
    fun c hc => hready.isChain.valid c (List.mem_append_right _ hc)
  have hmod := Nat.mod_lt offset hpos
  have hoffset : l₁.length * e.geom.clusterSize + offset % e.geom.clusterSize = offset := by
    rw [hlen, Nat.mul_comm]
    exact Nat.div_add_mod offset e.geom.clusterSize
  have htotal : size ≤ l₁.length * e.geom.clusterSize + l₂.length * e.geom.clusterSize := by
    have := le_fileClusters hpos size
    rwa [← hready.length, List.length_append, Nat.add_mul] at this
  have hframe := writeLoop_writtenIn buffer mapped n n 0 hlinked hmod.le
  obtain ⟨b, hstored, hall⟩ :=
    writeLoop_stored hg hio buffer mapped n 0 hlinked hvalid hmod (le_refl n)
  obtain rfl : b = n := hall hmapped (by omega)
  generalize writeLoop e buffer mapped b cur (offset % e.geom.clusterSize) b 0 w = r
    at hframe hstored ⊢
  refine ⟨hstored.count.trans (by rw [Nat.zero_add]), hframe.table,
    fun x hx => hframe.disk x fun c hc => hx c (List.mem_append_right _ hc),
    fun p hp => ?_⟩
  rw [overlaid, ← hready.bytes p hp]
  unfold byteOf
  by_cases hin : p < l₁.length * e.geom.clusterSize
  · rw [if_neg (by omega), Blocks.itemAt_left hin, Blocks.itemAt_left hin]
    refine Blocks.itemAt_congr hpos (fun c hc k hk => hframe.disk _ fun c' hc' => ?_) hin
    have hne : c ≠ c' :=
      fun heq => (List.disjoint_of_nodup_append hready.isChain.linked.nodup) hc (heq ▸ hc')
    have hapart :=
      clusters_apart hg (hready.isChain.valid c (List.mem_append_left _ hc)) (hvalid c' hc') hne
    omega
  · rw [Blocks.itemAt_right hpos (by omega), Blocks.itemAt_right hpos (by omega)]
    have hbytes := hstored.bytes (p - l₁.length * e.geom.clusterSize) (by omega)
    unfold byteOf at hbytes
    rw [hbytes]
    by_cases hover : offset ≤ p ∧ p < offset + b
    · rw [if_pos hover, if_pos (by omega)]
      congr 1
      omega
    · rw [if_neg hover, if_neg (by omega)]

/-- The chain of the entry cannot be extended for `size` bytes. -/
def Stuck (e : Env) (v : Vol) (d i size : ℕ) : Prop := (entryIn e.geom v d i).fileSize < size ∧
  ∃ u, OnlyRead v u ∧
    (u.fatExtendClusterChain e (entryIn e.geom v d i).firstClusterNo
      (entryIn e.geom v d i).fileSize size).2 = none

theorem fatExtendClusterChain_table (e : Env) (v : Vol) (start : ℕ) {oldSize newSize : ℕ}
    (hle : e.geom.clustersOf newSize ≤ oldClusters e.geom oldSize) :
    (v.fatExtendClusterChain e start oldSize newSize).1.table = v.table := by
  unfold oldClusters at hle
  unfold fatExtendClusterChain
  dsimp only
  rw [if_pos hle]
  generalize (if e.geom.clustersOf oldSize = 0 then 1 else e.geom.clustersOf oldSize) = old
  split_ifs
  · rfl
  · rfl
  · exact zeroGap_table _ _ _ _ _
  · exact zeroGap_table _ _ _ _ _

/-- What fits in the clusters of a file needs no others. -/
theorem IsFile.clustersOf_le (hg : g.Ok) (hfile : IsFile g v d i chain) {offset : ℕ}
    (hmax : offset ≤ 2 ^ 32 - g.clusterSize) (hgrow : (entryIn g v d i).fileSize < offset)
    (hle : offset ≤ g.fileClusters (entryIn g v d i).fileSize * g.clusterSize) :
    g.clustersOf offset ≤ oldClusters g (entryIn g v d i).fileSize := by
  have hpos := hg.clusterSize_pos
  have hcs := hg.clusterSize_le hfile.isChain.valid_start
  unfold oldClusters
  rw [clustersOf_eq hpos hmax hcs, clustersOf_eq hpos (by omega) hcs]
  unfold Geom.fileClusters at hle
  generalize ((entryIn g v d i).fileSize + g.clusterSize - 1) / g.clusterSize = k at hle ⊢
  have hold : (if k = 0 then 1 else k) = max 1 k := by
    split_ifs <;> omega
  rw [hold]
  apply Nat.le_of_lt_succ
  rw [Nat.div_lt_iff_lt_mul hpos, Nat.succ_mul]
  omega

section Steps

variable (hg : e.geom.Ok) (hio : ∀ n, e.io n = none) (hfile : IsFile e.geom v d i chain)
  (hsame : SameParent e.geom v path d i) (h : Resolves e v chain path d i)

include hg hio hfile hsame h

/-- The new size is stored once the clusters are as they should be. -/
theorem updateSize_reshaped (size : ℕ) (bytes : ℕ → UInt8) {chain' : List ℕ}
    (hchain : IsChain e.geom w.table (entryIn e.geom v d i).firstClusterNo chain')
    (hlength : chain'.length = e.geom.fileClusters size)
    (hmem : ∀ c ∈ chain', c ∈ chain ∨ v.table c = 0)
    (hfreed : ∀ c ∈ chain, c ∉ chain' → w.table c = 0)
    (htable : ∀ c, c ∉ chain → c ∉ chain' → w.table c = v.table c)
    (hkept : DirsKept e.geom chain v w) (hbytes : ∀ p < size, byteOf e.geom w chain' p = bytes p) :
    (w.updateSize e path (entryIn e.geom v d i) size).2 = true ∧
      Reshaped e.geom v d i chain size bytes
        (w.updateSize e path (entryIn e.geom v d i) size).1 chain' := by
  obtain ⟨hok, hreplaced⟩ := updateSize_replaced hg hio hfile hsame h hkept size
  refine ⟨hok, hreplaced.table.symm ▸ hchain, hlength, hmem, fun c hc hnot => ?_,
    fun c hc hnot => ?_, hreplaced.entry, fun d' i' hd' hi' hne => ?_,
    fun p hp => ?_⟩
  · rw [hreplaced.table]
    exact hfreed c hc hnot
  · rw [hreplaced.table]
    exact htable c hc hnot
  · rw [hreplaced.others d' i' hd'.area hi' hne]
    exact hkept d' hd' i' hi'
  · rw [← hbytes p hp]
    have hin : p < chain'.length * e.geom.clusterSize := by
      have := le_fileClusters hg.clusterSize_pos size
      rw [hlength]
      omega
    refine Blocks.itemAt_congr hg.clusterSize_pos (fun c hc k hk => ?_) hin
    have hvalid := hchain.valid c hc
    exact hreplaced.cluster hg hvalid (hfile.ne_dir hg hvalid (hmem c hc)) hk

theorem resize_reshaped {size : ℕ} (hsize : size ≤ 2 ^ 32 - e.geom.clusterSize)
    (hold : (entryIn e.geom v d i).fileSize ≤ 2 ^ 32 - e.geom.clusterSize) :
    (v.fatResizeFile e path size).2 = 0 ∧ (∃ chain', Reshaped e.geom v d i chain size
      (padded (entryIn e.geom v d i).fileSize (byteOf e.geom v chain))
      (v.fatResizeFile e path size).1 chain') ∨
    (v.fatResizeFile e path size).2 < 0 ∧ Stuck e v d i size ∧
      Reshaped e.geom v d i chain (entryIn e.geom v d i).fileSize (byteOf e.geom v chain)
        (v.fatResizeFile e path size).1 chain := by
  have hfind : (v.fatParsePath e path true).2 = some (entryIn e.geom v d i) := by
    rw [fatParsePath_true]
    exact h.walk hg hio hfile.zero_notMem fun _ _ _ _ => rfl
  have hread := fatParsePath_onlyRead e v path true
  unfold fatResizeFile
  generalize v.fatParsePath e path true = r at hfind hread
  dsimp only
  rw [hfind]
  dsimp only
  have hpos := hg.clusterSize_pos
  have hkept : DirsKept e.geom chain v r.1 := .of_disk hread.disk
  have hchain : IsChain e.geom r.1.table (entryIn e.geom v d i).firstClusterNo chain :=
    hread.table.symm ▸ hfile.isChain
  have hbytes : ∀ l p, byteOf e.geom r.1 l p = byteOf e.geom v l p := fun l p => by
    unfold byteOf
    rw [hread.disk]
  by_cases heq : size = (entryIn e.geom v d i).fileSize
  · rw [if_pos heq, heq]
    refine .inl ⟨rfl, chain, ?_⟩
    have hsame := hfile.reshaped_same hread.table hkept fun p _ => hbytes chain p
    refine { hsame with bytes := fun p hp => ?_ }
    unfold padded
    rw [if_pos hp]
    exact hbytes chain p
  rw [if_neg heq]
  by_cases hlt : size < (entryIn e.geom v d i).fileSize
  · rw [if_pos hlt]
    obtain ⟨hsome, kept, rest, hsplit, hlength, hcut⟩ :=
      shrink_spec hg hio hchain hfile.length hlt hold
    generalize r.1.fatShrinkClusterChain e (entryIn e.geom v d i).firstClusterNo
      (entryIn e.geom v d i).fileSize size = w at hsome hcut ⊢
    rw [if_neg (by rw [Option.isNone_iff_eq_none]; exact Option.isSome_iff_ne_none.mp hsome)]
    have hdirs : DirsKept e.geom chain v w.1 :=
      (DiskKept.of_onlyRead hread fun x hx => hcut.disk x hx.tables).dirs hg
    obtain ⟨hok, hreshaped⟩ := updateSize_reshaped hg hio hfile hsame h size
      (padded (entryIn e.geom v d i).fileSize (byteOf e.geom v chain)) hcut.isChain hlength
      (fun c hc => .inl (hcut.subset c hc)) hcut.freed
        (fun c hc _ => (hcut.others c hc).trans (congrFun hread.table c)) hdirs fun p hp => by
        have hin : p < kept.length * e.geom.clusterSize := by
          have := le_fileClusters hpos size
          rw [hlength]
          omega
        unfold padded
        rw [if_pos (by omega), ← hbytes chain p, hsplit]
        unfold byteOf
        rw [Blocks.itemAt_left hin]
        refine Blocks.itemAt_congr hpos (fun c hc k hk => hcut.disk _ ?_) hin
        have hmem := hcut.subset c hc
        exact (cluster_spared hg (hfile.isChain.valid c hmem) (hfile.isChain.ne_zero c hmem) hk).2
    rw [hok]
    exact .inl ⟨rfl, kept, hreshaped⟩
  · rw [if_neg hlt]
    have hgrow : (entryIn e.geom v d i).fileSize < size := by omega
    have hkeeps := fun p hp => extend_keeps (p := p) hg hio hchain hfile.length hgrow hsize hp
    have hnone := (extend_spec hg hchain hfile.length hgrow hsize).1
    have hbytes' := fun n hn => extend_bytes (n := n) hg hio hchain hfile.length hgrow hsize hn
    have hdirs :=
      (DiskKept.of_onlyRead hread
        (fatExtendClusterChain_kept hg hchain (entryIn e.geom v d i).fileSize size)).dirs hg
    have hstuck :
          (r.1.fatExtendClusterChain e (entryIn e.geom v d i).firstClusterNo
            (entryIn e.geom v d i).fileSize size).2 = none →
        Stuck e v d i size := fun hnone => ⟨hgrow, r.1, hread, hnone⟩
    generalize r.1.fatExtendClusterChain e (entryIn e.geom v d i).firstClusterNo
      (entryIn e.geom v d i).fileSize size = w
      at hkeeps hnone hbytes' hdirs hstuck ⊢
    cases hw : w.2 with
    | none =>
      rw [if_pos (show (none : Option ℕ).isNone = true from rfl)]
      exact .inr ⟨(by decide : (-2 : ℤ) < 0), hstuck hw,
        hfile.reshaped_same ((hnone hw).trans hread.table) hdirs
        fun p hp => (hkeeps p hp).trans (hbytes chain p)⟩
    | some n =>
      rw [if_neg (show ¬(some n).isNone = true from Bool.false_ne_true)]
      obtain ⟨fs, hlength, hgrown, hall⟩ := hbytes' n hw
      obtain ⟨hok, hreshaped⟩ := updateSize_reshaped hg hio hfile hsame h size
        (padded (entryIn e.geom v d i).fileSize (byteOf e.geom v chain)) hgrown.isChain hlength
        (fun c hc => (List.mem_append.mp hc).imp id fun hf => hread.table ▸ (hgrown.free c hf).2.1)
        (fun c hc hnot => absurd (List.mem_append_left _ hc) hnot)
        (fun c hc hnot => (hgrown.others c (fun hl => hc (List.mem_of_getLast? hl)) fun hf =>
          hnot (List.mem_append_right _ hf)).trans
          (congrFun hread.table c)) hdirs fun p hp => by
          rw [hall p hp]
          unfold padded
          rw [hbytes]
      rw [hok]
      exact .inl ⟨rfl, _, hreshaped⟩

omit hsame h in
/-- A write that fits goes through clusters that are ready for it, or nothing has changed yet. -/
theorem IsFile.ready {newsize : ℕ} (hmax : newsize ≤ 2 ^ 32 - e.geom.clusterSize) {r : Vol}
    (hread : OnlyRead v r) :
    ∀ x, x = (if (entryIn e.geom v d i).fileSize < newsize then
        r.fatExtendClusterChain e (entryIn e.geom v d i).firstClusterNo
          (entryIn e.geom v d i).fileSize newsize else (r, some 0)) →
      DiskKept e.geom v chain x.1 ∧
      (x.2 = none → Reshaped e.geom v d i chain (entryIn e.geom v d i).fileSize
        (byteOf e.geom v chain) x.1 chain) ∧
      (x.2 ≠ none → ∃ l, Ready e.geom v (entryIn e.geom v d i).firstClusterNo chain
        (entryIn e.geom v d i).fileSize
        (max (entryIn e.geom v d i).fileSize newsize) x.1 l) := by
  rintro x rfl
  have hchain : IsChain e.geom r.table (entryIn e.geom v d i).firstClusterNo chain :=
    hread.table.symm ▸ hfile.isChain
  have hbytes : ∀ l p, byteOf e.geom r l p = byteOf e.geom v l p := fun l p => by
    unfold byteOf
    rw [hread.disk]
  split_ifs with hgrow
  · have hkept := DiskKept.of_onlyRead hread
      (fatExtendClusterChain_kept hg hchain (entryIn e.geom v d i).fileSize newsize)
    refine ⟨hkept, fun hnone => ?_, fun hsome => ?_⟩
    · refine hfile.reshaped_same
        (((extend_spec hg hchain hfile.length hgrow hmax).1 hnone).trans hread.table)
        (hkept.dirs hg) fun p hp => ?_
      exact (extend_keeps hg hio hchain hfile.length hgrow hmax hp).trans (hbytes chain p)
    · obtain ⟨n, hn⟩ := Option.ne_none_iff_exists'.mp hsome
      obtain ⟨fs, hlength, hgrown, hall⟩ := extend_bytes hg hio hchain hfile.length hgrow hmax hn
      rw [max_eq_right hgrow.le]
      refine ⟨chain ++ fs, hgrown.isChain, hlength, fun c hc => ?_,
        fun c hc => List.mem_append_left _ hc, fun c hc hnot => ?_, fun p hp => ?_⟩
      · exact (List.mem_append.mp hc).imp id fun hf => hread.table ▸ (hgrown.free c hf).2.1
      · exact (hgrown.others c (fun hl => hc (List.mem_of_getLast? hl)) fun hf =>
          hnot (List.mem_append_right _ hf)).trans
          (congrFun hread.table c)
      · rw [hall p hp]
        unfold padded
        rw [hbytes]
  · rw [max_eq_left (not_lt.mp hgrow)]
    refine ⟨fun x _ => congrFun hread.disk x, fun hnone => hnone.elim, fun _ => ⟨chain, ?_⟩⟩
    refine ⟨hchain, hfile.length, fun c hc => .inl hc, fun c hc => hc,
      fun c _ _ => congrFun hread.table c, fun p hp => ?_⟩
    unfold padded
    rw [if_pos hp, hbytes]

theorem write_reshaped (buffer : Buf) {offset size : ℕ} {mapped : ℕ → ℕ → Bool}
    (hmapped : ∀ o k, mapped o k = true) (hmax : offset + size ≤ 2 ^ 32 - e.geom.clusterSize)
    (hplain : 0 < size ∨
      offset ≤ e.geom.fileClusters (entryIn e.geom v d i).fileSize * e.geom.clusterSize ∨
      offset % e.geom.clusterSize ≠ 0) :
    (v.fatWriteFileAt e path buffer offset size mapped).2 = size ∧
      (∃ chain', Reshaped e.geom v d i chain (max (entryIn e.geom v d i).fileSize (offset + size))
        (overlaid
          (padded (entryIn e.geom v d i).fileSize (byteOf e.geom v chain)) buffer offset size)
        (v.fatWriteFileAt e path buffer offset size mapped).1 chain') ∨
    (v.fatWriteFileAt e path buffer offset size mapped).2 < 0 ∧
    (0 < size → Stuck e v d i (offset + size)) ∧
      Reshaped e.geom v d i chain (entryIn e.geom v d i).fileSize (byteOf e.geom v chain)
        (v.fatWriteFileAt e path buffer offset size mapped).1 chain := by
  have hfind : (v.fatParsePath e path true).2 = some (entryIn e.geom v d i) := by
    rw [fatParsePath_true]
    exact h.walk hg hio hfile.zero_notMem fun _ _ _ _ => rfl
  have hread := fatParsePath_onlyRead e v path true
  have hpos := hg.clusterSize_pos
  unfold fatWriteFileAt
  generalize v.fatParsePath e path true = r at hfind hread
  dsimp only
  rw [hfind]
  dsimp only
  rw [hfile.isChain.valid_start, if_neg (by decide),
    Nat.mod_eq_of_lt (by omega : offset + size < 2 ^ 32)]
  have hx := hfile.ready hg hio hmax hread
  have hunchanged : ¬(entryIn e.geom v d i).fileSize < offset + size →
        (if (entryIn e.geom v d i).fileSize < offset + size then
      r.1.fatExtendClusterChain e (entryIn e.geom v d i).firstClusterNo
        (entryIn e.geom v d i).fileSize (offset + size)
      else (r.1, some 0)) = (r.1, some 0) := fun hnot => if_neg hnot
  have htables :
        e.geom.clustersOf (offset + size) ≤ oldClusters e.geom (entryIn e.geom v d i).fileSize →
      (if (entryIn e.geom v d i).fileSize < offset + size then
        r.1.fatExtendClusterChain e (entryIn e.geom v d i).firstClusterNo
          (entryIn e.geom v d i).fileSize (offset + size)
        else (r.1, some 0)).1.table = v.table := by
    intro hle
    split_ifs
    · exact (fatExtendClusterChain_table e r.1 _ hle).trans hread.table
    · exact hread.table
  have hstuck : (if (entryIn e.geom v d i).fileSize < offset + size then
      r.1.fatExtendClusterChain e (entryIn e.geom v d i).firstClusterNo
        (entryIn e.geom v d i).fileSize (offset + size)
      else (r.1, some 0)).2 = none → Stuck e v d i (offset + size) := by
    split_ifs with hgrow
    · exact fun hnone => ⟨hgrow, r.1, hread, hnone⟩
    · exact fun hnone => nomatch hnone
  generalize (if (entryIn e.geom v d i).fileSize < offset + size then
      r.1.fatExtendClusterChain e (entryIn e.geom v d i).firstClusterNo
        (entryIn e.geom v d i).fileSize (offset + size)
      else (r.1, some 0)) = x at hx hunchanged htables hstuck ⊢
  obtain ⟨hkept, hfailed, hready⟩ := hx x rfl
  cases hnone : x.2 with
  | none =>
    rw [if_pos (show (none : Option ℕ).isNone = true from rfl)]
    exact .inr ⟨(by decide : (-2 : ℤ) < 0), fun _ => hstuck hnone, hfailed hnone⟩
  | some n =>
    rw [if_neg (show ¬(some n).isNone = true from Bool.false_ne_true)]
    obtain ⟨l, hl⟩ := hready (by rw [hnone]; exact Option.some_ne_none n)
    cases hskip : skipTo e.geom x.1.table (offset / e.geom.clusterSize)
      (entryIn e.geom v d i).firstClusterNo with
    | none =>
      have hbeyond : ¬offset < l.length * e.geom.clusterSize := by
        intro hlt
        have hsome := skipTo_isSome (offset / e.geom.clusterSize) hl.isChain.linked
          (Nat.div_lt_of_lt_mul (by rwa [Nat.mul_comm]))
        rw [hskip] at hsome
        exact absurd hsome Bool.false_ne_true
      have hend := le_fileClusters hpos (max (entryIn e.geom v d i).fileSize (offset + size))
      rw [← hl.length] at hend
      obtain rfl : size = 0 := by omega
      rw [Nat.add_zero] at hend hunchanged htables hmax
      by_cases hgrow : (entryIn e.geom v d i).fileSize < offset
      · rcases hplain.resolve_left (lt_irrefl 0) with hle | hr
        · -- there was nothing to add to the chain, and the offset is where it ends
          have htable := htables (hfile.clustersOf_le hg hmax hgrow hle)
          have hchain : IsChain e.geom x.1.table (entryIn e.geom v d i).firstClusterNo chain :=
            htable.symm ▸ hfile.isChain
          obtain rfl : l = chain := hl.isChain.linked.unique hchain.linked
          have hdirs : DirsKept e.geom l v x.1 := DiskKept.dirs hg hkept
          refine .inr ⟨(by decide : (-3 : ℤ) < 0), fun hzero => absurd hzero (lt_irrefl 0), hchain,
            hfile.length, fun c hc => .inl hc,
            fun c hc hnot => absurd hc hnot, fun c _ _ => congrFun htable c, ?_,
            fun d' i' hd' hi' _ => hdirs d' hd' i' hi', fun p hp => ?_⟩
          · rw [setFileSize_self]
            exact hdirs d hfile.aside i hfile.slot
          · rw [hl.bytes p (lt_of_lt_of_le hp (le_max_left _ _))]
            exact if_pos hp
        · -- the chain was extended, and goes beyond the offset
          have heq : offset = l.length * e.geom.clusterSize := by omega
          rw [heq, Nat.mul_mod_left] at hr
          exact absurd rfl hr
      · rw [hunchanged hgrow]
        refine .inr ⟨(by decide : (-3 : ℤ) < 0), fun hzero => absurd hzero (lt_irrefl 0),
          hfile.reshaped_same hread.table (.of_disk hread.disk) fun p _ => ?_⟩
        unfold byteOf
        rw [hread.disk]
    | some cur =>
      dsimp only
      obtain ⟨hcount, htable, hdisk, hbytes⟩ :=
        hl.write hg hio buffer mapped hmapped hskip (le_max_right _ _)
      generalize writeLoop e buffer mapped size cur (offset % e.geom.clusterSize) size 0 x.1 = w
        at hcount htable hdisk hbytes ⊢
      rw [hcount]
      dsimp only
      have hdirs : DirsKept e.geom chain v w.1 := DiskKept.dirs hg fun y hy =>
        (hdisk y fun c hc => hy.clusters c (hl.isChain.valid c hc) (hl.mem c hc)).trans (hkept y hy)
      rw [Nat.mod_eq_of_lt (by omega : offset + size < 2 ^ 32)]
      by_cases hgrow : (entryIn e.geom v d i).fileSize < offset + size
      · rw [if_pos hgrow]
        rw [max_eq_right hgrow.le] at hl hbytes ⊢
        obtain ⟨hok, hreshaped⟩ := updateSize_reshaped hg hio hfile hsame h (offset + size)
          (overlaid (padded (entryIn e.geom v d i).fileSize (byteOf e.geom v chain)) buffer offset
            size) (htable.symm ▸ hl.isChain) hl.length hl.mem
          (fun c hc hnot => absurd (hl.keeps c hc) hnot)
            (fun c hc hnot => (congrFun htable c).trans (hl.table c hc hnot)) hdirs hbytes
        rw [hok]
        exact .inl ⟨rfl, l, hreshaped⟩
      · rw [if_neg hgrow]
        rw [max_eq_left (not_lt.mp hgrow)] at hl hbytes ⊢
        refine .inl ⟨rfl, l, htable.symm ▸ hl.isChain, hl.length, hl.mem,
          fun c hc hnot => absurd (hl.keeps c hc) hnot,
          fun c hc hnot => (congrFun htable c).trans (hl.table c hc hnot), ?_,
          fun d' i' hd' hi' _ => hdirs d' hd' i' hi', hbytes⟩
        rw [setFileSize_self]
        exact hdirs d hfile.aside i hfile.slot

end Steps

end X86Kernel.Fat
