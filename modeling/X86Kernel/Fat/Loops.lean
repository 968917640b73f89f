import X86Kernel.Fat.Chain
import X86Kernel.Lib.Loop

/-! The loops of the driver over the table, turn by turn, and on which tables they end. -/
namespace X86Kernel.Fat

namespace Vol

/-- A volume that `fat_get_info` accepts: the widths of its fields, and its checks. -/
structure Accepted (g : Geom) : Prop where
  bytesPerSector : 0 < g.bytesPerSector ∧ g.bytesPerSector < 2 ^ 16
  sectorsPerCluster : 0 < g.sectorsPerCluster ∧ g.sectorsPerCluster < 2 ^ 8
  noReservedSectors : g.noReservedSectors < 2 ^ 16
  noTables : 0 < g.noTables ∧ g.noTables < 2 ^ 8
  noRootEntries : g.noRootEntries < 2 ^ 16
  sectorsPerFat : 0 < g.sectorsPerFat ∧ g.sectorsPerFat < 2 ^ 16
  noSectors : g.firstDataSector < g.noSectors ∧ g.noSectors < 2 ^ 32

/-- The search for a free cluster. -/
def searchTurn (g : Geom) (table : ℕ → ℕ) (c : ℕ) : Option ℕ :=
  if c < g.noClusters ∧ table c ≠ 0 then some ((c + 1) % 2 ^ 16) else none

/-- The loop of `fat_read_file` that counts clusters. -/
def countTurn (g : Geom) (table : ℕ → ℕ) (s : ℕ × ℕ) : Option (ℕ × ℕ) :=
  if s.2 ≤ g.noClusters ∧ fatValidCluster g (table s.1) then some (table s.1, (s.2 + 1) % 2 ^ 16)
  else none

/-- The loop of `fat_read_file` that reads them. -/
def readTurn (e : Env) (allocate : ℕ) (s : ℕ × List UInt8 × Vol) : Option (ℕ × List UInt8 × Vol) :=
  let r := s.2.2.ataReadExact e (e.geom.clusterAddr s.1)
  match r.2 with
  | none => none
  | some clusterBuf =>
    let left := allocate - s.2.1.length
    if left < e.geom.clusterSize then none
    else if fatValidCluster e.geom (s.2.2.table s.1) then
      some (s.2.2.table s.1,
        s.2.1 ++ (List.range (min e.geom.clusterSize left)).map clusterBuf, r.1)
    else none

/-- The loops of `fat_read_file_user` and `fat_write_file_at` that go on to an offset. -/
def skipTurn (g : Geom) (table : ℕ → ℕ) (s : ℕ × ℕ) : Option (ℕ × ℕ) :=
  if g.clusterSize ≤ s.2 ∧ fatValidCluster g (table s.1) then some (table s.1, s.2 - g.clusterSize)
  else none

/-- The loop of `fat_read_file_user`. -/
def readUserTurn (e : Env) (size : ℕ) (copied : ℕ → ℕ → Option ℕ) (s : ℕ × ℕ × List UInt8 × Vol) :
    Option (ℕ × ℕ × List UInt8 × Vol) :=
  let clusterReadSize := min (e.geom.clusterSize - s.2.1) (size - s.2.2.1.length)
  let r := s.2.2.2.ataReadExact e ((e.geom.clusterAddr s.1 + s.2.1) % 2 ^ 32)
  match r.2 with
  | none => none
  | some clusterBuf =>
    match copied s.2.2.1.length clusterReadSize with
    | none => none
    | some written =>
      let bytes := s.2.2.1 ++ (List.range (min written clusterReadSize)).map clusterBuf
      if size ≤ bytes.length ∨ written < clusterReadSize then none
      else if fatValidCluster e.geom (s.2.2.2.table s.1) then
        some (s.2.2.2.table s.1, 0, bytes, r.1)
      else none

/-- The loop of `fat_write_file_at`: the cluster, the offset in it, and the bytes left and
written. -/
structure Writing where
  curCluster : ℕ
  writeOffset : ℕ
  bytesRemaining : ℕ
  bytesWritten : ℕ
  vol : Vol

def writeTurn (e : Env) (buffer : Buf) (mapped : ℕ → ℕ → Bool) (s : Writing) : Option Writing :=
  if s.bytesRemaining = 0 then none
  else
    let consumed := min (e.geom.clusterSize - s.writeOffset) s.bytesRemaining
    if !mapped s.bytesWritten consumed then none
    else
      let next (w : Vol) : Option Writing :=
        if fatValidCluster e.geom (w.table s.curCluster) then
          some ⟨w.table s.curCluster, 0, s.bytesRemaining - consumed, s.bytesWritten + consumed, w⟩
        else none
      if 0 < s.writeOffset ∨ s.bytesRemaining < e.geom.clusterSize then
        let r := s.vol.ataReadExact e (e.geom.clusterAddr s.curCluster)
        match r.2 with
        | none => none
        | some clusterBuf =>
          let w := r.1.ataWriteExact e (e.geom.clusterAddr s.curCluster)
            (fun i => if s.writeOffset ≤ i ∧ i < s.writeOffset + consumed then
              buffer (s.bytesWritten + (i - s.writeOffset))
              else clusterBuf i) e.geom.clusterSize
          if w.2 then next w.1 else none
      else
        let w := s.vol.ataWriteExact e (e.geom.clusterAddr s.curCluster)
          (fun i => buffer (s.bytesWritten + i))
          e.geom.clusterSize
        if w.2 then next w.1 else none

/-- The loops of `fat_extend_cluster_chain` and `fat_shrink_cluster_chain` that look for the last of
`limit` clusters. -/
def walkTurn (g : Geom) (table : ℕ → ℕ) (limit : ℕ) (s : ℕ × ℕ) : Option (ℕ × ℕ) :=
  if s.2 < limit ∧ fatValidCluster g (table s.1) then some (table s.1, s.2 + 1) else none

/-- The loops of `fat_shrink_cluster_chain`, `fat_unwind_chain` and `fat_delete_file` that free a
chain. -/
def freeTurn (g : Geom) (s : ℕ × Freeing) : Option (ℕ × Freeing) :=
  if fatValidCluster g s.1 then
    let r := s.2.vol.fatTableUpdateCluster g s.1 0
    some (s.2.vol.table s.1, ⟨r.1, min s.2.lo s.1, max s.2.hi s.1, s.2.freed + 1, s.2.ok && r.2⟩)
  else none

/-! ### The bounded loops of the model take these turns -/

variable {g : Geom} {table : ℕ → ℕ} {e : Env}

theorem freeSearch_follows : Loop.Follows (searchTurn g table) (freeSearch g table) where
  turn n c c' h := by
    unfold searchTurn at h
    split_ifs at h with hc
    obtain rfl := Option.some.inj h
    rw [freeSearch, if_neg]
    rintro (h | h)
    · omega
    · exact hc.2 h
  exit n m c h := by
    unfold searchTurn at h
    split_ifs at h with hc
    rw [not_and_or, not_lt, not_not] at hc
    rw [freeSearch, freeSearch, if_pos hc, if_pos hc]

theorem countChain_follows : Loop.Follows (countTurn g table) fun n s =>
    countChain g table n s.1 s.2 where
  turn n s s' h := by
    unfold countTurn at h
    split_ifs at h with hc
    obtain rfl := Option.some.inj h
    rw [countChain, if_pos hc]
  exit n m s h := by
    unfold countTurn at h
    split_ifs at h with hc
    rw [countChain, countChain, if_neg hc, if_neg hc]

theorem readWhole_follows (allocate : ℕ) :
    Loop.Follows (readTurn e allocate) fun n s => readWhole e allocate n s.1 s.2.1 s.2.2 where
  turn n s s' h := by
    unfold readTurn at h
    rw [readWhole]
    dsimp only at h ⊢
    cases hr : (s.2.2.ataReadExact e (e.geom.clusterAddr s.1)).2 with
    | none =>
      rw [hr] at h
      cases h
    | some clusterBuf =>
      rw [hr] at h
      dsimp only at h ⊢
      split_ifs at h with h1 h2
      obtain rfl := Option.some.inj h
      rw [if_neg h1, if_pos h2]
  exit n m s h := by
    unfold readTurn at h
    rw [readWhole, readWhole]
    dsimp only at h ⊢
    cases hr : (s.2.2.ataReadExact e (e.geom.clusterAddr s.1)).2 with
    | none => rfl
    | some clusterBuf =>
      rw [hr] at h
      dsimp only at h ⊢
      split_ifs at h with h1 h2
      · rw [if_pos h1, if_pos h1]
      · rw [if_neg h1, if_neg h1, if_neg h2, if_neg h2]

theorem skipTo_follows (hpos : 0 < g.clusterSize) :
    Loop.Follows (skipTurn g table) fun _ s => skipTo g table (s.2 / g.clusterSize) s.1 where
  turn n s s' h := by
    unfold skipTurn at h
    split_ifs at h with hc
    obtain rfl := Option.some.inj h
    dsimp only
    rw [Nat.div_eq_sub_div hpos hc.1, skipTo, if_pos hc.2]
  exit _ _ _ _ := rfl

theorem readLoop_follows (size : ℕ) (copied : ℕ → ℕ → Option ℕ) :
    Loop.Follows (readUserTurn e size copied) fun n s =>
      readLoop e size copied n s.1 s.2.1 s.2.2.1 s.2.2.2 where
  turn n s s' h := by
    unfold readUserTurn at h
    rw [readLoop]
    dsimp only at h ⊢
    cases hr : (s.2.2.2.ataReadExact e ((e.geom.clusterAddr s.1 + s.2.1) % 2 ^ 32)).2 with
    | none =>
      rw [hr] at h
      cases h
    | some clusterBuf =>
      rw [hr] at h
      dsimp only at h ⊢
      cases hc : copied s.2.2.1.length
          (min (e.geom.clusterSize - s.2.1) (size - s.2.2.1.length)) with
      | none =>
        rw [hc] at h
        cases h
      | some written =>
        rw [hc] at h
        dsimp only at h ⊢
        split_ifs at h with h1 h2
        obtain rfl := Option.some.inj h
        rw [if_neg h1, if_pos h2]
  exit n m s h := by
    unfold readUserTurn at h
    rw [readLoop, readLoop]
    dsimp only at h ⊢
    cases hr : (s.2.2.2.ataReadExact e ((e.geom.clusterAddr s.1 + s.2.1) % 2 ^ 32)).2 with
    | none => rfl
    | some clusterBuf =>
      rw [hr] at h
      dsimp only at h ⊢
      cases hc : copied s.2.2.1.length
          (min (e.geom.clusterSize - s.2.1) (size - s.2.2.1.length)) with
      | none => rfl
      | some written =>
        rw [hc] at h
        dsimp only at h ⊢
        split_ifs at h with h1 h2
        · rw [if_pos h1, if_pos h1]
        · rw [if_neg h1, if_neg h1, if_neg h2, if_neg h2]

theorem walkChain_follows (limit : ℕ) :
    Loop.Follows (walkTurn g table limit) fun _ s => walkChain g table (limit - s.2) s.1 where
  turn n s s' h := by
    unfold walkTurn at h
    split_ifs at h with hc
    obtain rfl := Option.some.inj h
    dsimp only
    rw [show limit - s.2 = limit - (s.2 + 1) + 1 by omega, walkChain, if_pos hc.2]
  exit _ _ _ _ := rfl

theorem freeChain_follows : Loop.Follows (freeTurn g) fun n s => freeChain g n s.1 s.2 where
  turn n s s' h := by
    unfold freeTurn at h
    split_ifs at h with hc
    obtain rfl := Option.some.inj h
    dsimp only
    rw [freeChain, if_pos hc]
  exit n m s h := by
    unfold freeTurn at h
    split_ifs at h with hc
    rw [freeChain, freeChain, if_neg hc, if_neg hc]

theorem writeLoop_follows (buffer : Buf) (mapped : ℕ → ℕ → Bool) :
    Loop.Follows (writeTurn e buffer mapped) fun n s =>
      writeLoop e buffer mapped n s.curCluster s.writeOffset s.bytesRemaining s.bytesWritten
        s.vol where
  turn n s s' h := by
    unfold writeTurn at h
    rw [writeLoop]
    dsimp only at h ⊢
    split_ifs at h with h1 h2 h3
    · rw [if_neg h1, if_neg h2, if_pos h3]
      cases hr : (s.vol.ataReadExact e (e.geom.clusterAddr s.curCluster)).2 with
      | none =>
        rw [hr] at h
        cases h
      | some clusterBuf =>
        rw [hr] at h
        dsimp only at h ⊢
        split_ifs at h with h4 h5
        obtain rfl := Option.some.inj h
        rw [if_pos h4, if_pos h5]
    · rename_i h4
      obtain rfl := Option.some.inj h
      rw [if_neg h1, if_neg h2, if_neg h3]
      rename_i h5
      rw [if_pos h5, if_pos h4]
  exit n m s h := by
    unfold writeTurn at h
    rw [writeLoop, writeLoop]
    dsimp only at h ⊢
    by_cases h1 : s.bytesRemaining = 0
    · rw [if_pos h1, if_pos h1]
    rw [if_neg h1] at h ⊢
    rw [if_neg h1]
    by_cases h2 :
      (!mapped s.bytesWritten (min (e.geom.clusterSize - s.writeOffset) s.bytesRemaining)) = true
    · rw [if_pos h2, if_pos h2]
    rw [if_neg h2] at h ⊢
    rw [if_neg h2]
    by_cases h3 : 0 < s.writeOffset ∨ s.bytesRemaining < e.geom.clusterSize
    · rw [if_pos h3] at h ⊢
      rw [if_pos h3]
      cases hr : (s.vol.ataReadExact e (e.geom.clusterAddr s.curCluster)).2 with
      | none => rfl
      | some clusterBuf =>
        rw [hr] at h
        dsimp only at h ⊢
        split_ifs at h with h4 h5
        · rw [if_pos h4, if_pos h4, if_neg h5, if_neg h5]
        · rw [if_neg h4, if_neg h4]
    · rw [if_neg h3] at h ⊢
      rw [if_neg h3]
      split_ifs at h with h4 h5
      · rw [if_pos h4, if_pos h4, if_neg h5, if_neg h5]
      · rw [if_neg h4, if_neg h4]

/-! ### Which of them end -/

/-- The 16-bit counter meets the end of the table, or a free cluster. -/
theorem search_ends (h : g.noClusters < 2 ^ 16 ∨ ∃ c < 2 ^ 16, table c = 0) {start : ℕ}
    (hs : start < 2 ^ 16) :
    Loop.Ends (searchTurn g table) start := by
  rcases h with h | ⟨d, hd, hzero⟩
  · refine Loop.ends_of_measure (fun _ => True) (fun c => g.noClusters - c)
      (fun c c' _ hc => ⟨trivial, ?_⟩) trivial
    unfold searchTurn at hc
    split_ifs at hc with hlt
    obtain rfl := Option.some.inj hc
    rw [Nat.mod_eq_of_lt (by omega)]
    omega
  · -- the distance to the free cluster, across the wrap
    refine Loop.ends_of_measure (fun c => c < 2 ^ 16) (fun c => (d + 2 ^ 16 - c) % 2 ^ 16)
      (fun c c' hc hb => ?_) hs
    unfold searchTurn at hb
    split_ifs at hb with hlt
    obtain rfl := Option.some.inj hb
    have hne : c ≠ d := by
      rintro rfl
      exact hlt.2 hzero
    omega

theorem search_goes_on (h : 2 ^ 16 ≤ g.noClusters) (hfull : ∀ c < 2 ^ 16, table c ≠ 0) {start : ℕ}
    (hs : start < 2 ^ 16) :
    ¬Loop.Ends (searchTurn g table) start := by
  refine Loop.not_ends (fun c => c < 2 ^ 16) (fun c hc => ⟨_, if_pos ⟨by omega, hfull c hc⟩, ?_⟩) hs
  exact Nat.mod_lt _ (by decide)

/-- The count stops a chain that goes round, as long as it does not wrap itself. -/
theorem count_ends (h : g.noClusters < 2 ^ 16 - 1 ∨ ∀ c, fatValidCluster g c = true →
    ∃ l, Chain.Linked (nextOf g table) (some c) l)
    {c : ℕ} (hc : fatValidCluster g c = true) : Loop.Ends (countTurn g table) (c, 1) := by
  rcases h with h | h
  · refine Loop.ends_of_measure (fun _ => True) (fun s => g.noClusters + 1 - s.2)
      (fun s s' _ hs => ⟨trivial, ?_⟩) trivial
    unfold countTurn at hs
    split_ifs at hs with hlt
    obtain rfl := Option.some.inj hs
    dsimp only
    rw [Nat.mod_eq_of_lt (by omega)]
    omega
  · obtain ⟨l, hl⟩ := h c hc
    generalize 1 = count
    induction l generalizing c count with
    | nil => exact absurd (show some c = none from hl) (Option.some_ne_none c)
    | cons a l ih =>
      obtain rfl := Option.some.inj hl.1
      cases hb : countTurn g table (c, count) with
      | none => exact .of_none hb
      | some s' =>
        refine .of_some hb ?_
        unfold countTurn at hb
        split_ifs at hb with hcond
        obtain rfl := Option.some.inj hb
        have hnext : nextOf g table c = some (table c) := by
          unfold nextOf
          rw [if_pos hcond.2]
        exact ih hcond.2 (hnext ▸ hl.2) _

theorem count_goes_on (h : 2 ^ 16 - 1 ≤ g.noClusters) {c : ℕ}
    (hc : ¬∃ l, Chain.Linked (nextOf g table) (some c) l) :
    ¬Loop.Ends (countTurn g table) (c, 1) := by
  refine Loop.not_ends (fun s => s.2 < 2 ^ 16 ∧ ¬∃ l, Chain.Linked (nextOf g table) (some s.1) l)
    (fun s hs => ?_)
    ⟨Nat.one_lt_two_pow (by decide), hc⟩
  have hv : fatValidCluster g (table s.1) = true := by
    by_contra hv
    refine hs.2 ⟨[s.1], rfl, ?_⟩
    show nextOf g table s.1 = none
    unfold nextOf
    rw [if_neg hv]
  refine ⟨_, if_pos ⟨by omega, hv⟩, Nat.mod_lt _ (by decide), ?_⟩
  rintro ⟨l, hl⟩
  refine hs.2 ⟨s.1 :: l, rfl, ?_⟩
  unfold nextOf
  rw [if_pos hv]
  exact hl

/-- Every turn reads a whole cluster of the bytes that were asked for. -/
theorem read_ends (hpos : 0 < e.geom.clusterSize) (allocate : ℕ) (s : ℕ × List UInt8 × Vol) :
    Loop.Ends (readTurn e allocate) s := by
  refine Loop.ends_of_measure (fun _ => True) (fun s => allocate - s.2.1.length)
    (fun s s' _ hs => ⟨trivial, ?_⟩) trivial
  unfold readTurn at hs
  dsimp only at hs
  split at hs
  · cases hs
  · split_ifs at hs with h1 h2
    obtain rfl := Option.some.inj hs
    dsimp only
    rw [List.length_append, List.length_map, List.length_range]
    omega

theorem skip_ends (hpos : 0 < g.clusterSize) (s : ℕ × ℕ) : Loop.Ends (skipTurn g table) s := by
  refine Loop.ends_of_measure (fun _ => True) Prod.snd (fun s s' _ hs => ⟨trivial, ?_⟩) trivial
  unfold skipTurn at hs
  split_ifs at hs with hc
  obtain rfl := Option.some.inj hs
  dsimp only
  omega

theorem readUser_ends (hpos : 0 < e.geom.clusterSize) (size : ℕ) (copied : ℕ → ℕ → Option ℕ)
    {c offset : ℕ} (hoff : offset < e.geom.clusterSize) (hsize : 0 < size) (v : Vol) :
    Loop.Ends (readUserTurn e size copied) (c, offset, [], v) := by
  refine Loop.ends_of_measure (fun s => s.2.1 < e.geom.clusterSize ∧ s.2.2.1.length < size)
    (fun s => size - s.2.2.1.length) (fun s s' hP hs => ?_) ⟨hoff, hsize⟩
  unfold readUserTurn at hs
  dsimp only at hs
  split at hs
  · cases hs
  · split at hs
    · cases hs
    · split_ifs at hs with h1 h2
      obtain rfl := Option.some.inj hs
      rw [List.length_append, List.length_map, List.length_range] at h1
      refine ⟨⟨hpos, ?_⟩, ?_⟩
      · dsimp only
        rw [List.length_append, List.length_map, List.length_range]
        omega
      · dsimp only
        rw [List.length_append, List.length_map, List.length_range]
        omega

/-- Every turn writes one byte at least. -/
theorem write_ends (hpos : 0 < e.geom.clusterSize) (buffer : Buf) (mapped : ℕ → ℕ → Bool)
    {s : Writing}
    (hoff : s.writeOffset < e.geom.clusterSize) : Loop.Ends (writeTurn e buffer mapped) s := by
  refine Loop.ends_of_measure (fun s => s.writeOffset < e.geom.clusterSize) Writing.bytesRemaining
    (fun s s' hP hs => ?_) hoff
  unfold writeTurn at hs
  dsimp only at hs
  have hnext : ∀ w : Vol, (if fatValidCluster e.geom (w.table s.curCluster) then
      some ⟨w.table s.curCluster, 0,
        s.bytesRemaining - min (e.geom.clusterSize - s.writeOffset) s.bytesRemaining,
        s.bytesWritten + min (e.geom.clusterSize - s.writeOffset) s.bytesRemaining, w⟩
          else none) = some s' →
      s.bytesRemaining ≠ 0 → s'.writeOffset < e.geom.clusterSize ∧
        s'.bytesRemaining < s.bytesRemaining := by
    intro w hw h0
    split_ifs at hw
    obtain rfl := Option.some.inj hw
    dsimp only
    omega
  by_cases h0 : s.bytesRemaining = 0
  · rw [if_pos h0] at hs
    cases hs
  rw [if_neg h0] at hs
  split_ifs at hs
  · split at hs
    · cases hs
    · split at hs
      · exact hnext _ hs h0
      · cases hs
  · rename_i hv
    exact hnext _ (by rw [if_pos hv]; exact hs) h0

theorem walk_ends (limit : ℕ) (s : ℕ × ℕ) : Loop.Ends (walkTurn g table limit) s := by
  refine Loop.ends_of_measure (fun _ => True) (fun s => limit - s.2)
    (fun s s' _ hs => ⟨trivial, ?_⟩) trivial
  unfold walkTurn at hs
  split_ifs at hs with hc
  obtain rfl := Option.some.inj hs
  dsimp only
  omega

/-- The clusters that are not free, and whether the loop is at one: a chain that goes round meets a
cluster that the loop has freed. -/
def toFree (g : Geom) (s : ℕ × Freeing) : ℕ :=
  ((Finset.Ico 2 g.noClusters).filter fun c => s.2.vol.table c ≠ 0).card +
    if fatValidCluster g s.1 then 1 else 0

theorem toFree_turn {s s' : ℕ × Freeing} (h : freeTurn g s = some s') :
    toFree g s' < toFree g s := by
  unfold freeTurn at h
  split_ifs at h with hv
  obtain rfl := Option.some.inj h
  unfold toFree
  dsimp only
  rw [if_pos hv, update_valid hv]
  dsimp only
  by_cases hz : s.2.vol.table s.1 = 0
  · have hend : fatValidCluster g (s.2.vol.table s.1) = false := by
      rw [hz]
      unfold fatValidCluster
      simp
    rw [hend, if_neg Bool.false_ne_true, Nat.add_zero]
    refine Nat.lt_succ_of_le (Finset.card_le_card fun c hc => ?_)
    rw [Finset.mem_filter] at hc ⊢
    refine ⟨hc.1, fun hzero => hc.2 ?_⟩
    rw [Function.update_apply]
    split_ifs
    · rfl
    · exact hzero
  · have hlt :
          ((Finset.Ico 2 g.noClusters).filter fun c =>
            Function.update s.2.vol.table s.1 0 c ≠ 0).card <
        ((Finset.Ico 2 g.noClusters).filter fun c => s.2.vol.table c ≠ 0).card := by
      refine Finset.card_lt_card
        (Finset.ssubset_iff_of_subset (fun c hc => ?_) |>.mpr ⟨s.1, ?_, ?_⟩)
      · rw [Finset.mem_filter] at hc ⊢
        refine ⟨hc.1, fun hzero => hc.2 ?_⟩
        rw [Function.update_apply]
        split_ifs
        · rfl
        · exact hzero
      · exact Finset.mem_filter.mpr ⟨Finset.mem_Ico.mpr (valid_lt hv), hz⟩
      · rw [Finset.mem_filter, Function.update_self]
        exact fun h => h.2 rfl
    have hone : (if fatValidCluster g (s.2.vol.table s.1) = true then 1 else 0) ≤ 1 := by
      split_ifs <;> decide
    omega

theorem free_ends (s : ℕ × Freeing) : Loop.Ends (freeTurn g) s :=
  Loop.ends_of_measure (fun _ => True) (toFree g) (fun _ _ _ h => ⟨trivial, toFree_turn h⟩) trivial

theorem Accepted.clusterSize_pos (hg : Accepted g) : 0 < g.clusterSize :=
  Nat.mul_pos hg.sectorsPerCluster.1 hg.bytesPerSector.1

/-- Every loop over the table ends, from wherever it is entered. -/
structure LoopsEnd (g : Geom) (table : ℕ → ℕ) : Prop where
  search : ∀ start < 2 ^ 16, Loop.Ends (searchTurn g table) start
  count : ∀ c, fatValidCluster g c = true → Loop.Ends (countTurn g table) (c, 1)
  read : ∀ (e : Env) (v : Vol) (allocate c : ℕ), e.geom = g → v.table = table →
    Loop.Ends (readTurn e allocate) (c, [], v)
  skip : ∀ c offset, Loop.Ends (skipTurn g table) (c, offset)
  readUser : ∀ (e : Env) (v : Vol) (size : ℕ) (copied : ℕ → ℕ → Option ℕ) (c offset : ℕ),
    e.geom = g → v.table = table →
    0 < size → Loop.Ends (readUserTurn e size copied) (c, offset % g.clusterSize, [], v)
  write : ∀ (e : Env) (v : Vol) (buffer : Buf) (mapped : ℕ → ℕ → Bool) (c offset size : ℕ),
    e.geom = g → v.table = table →
    Loop.Ends (writeTurn e buffer mapped) ⟨c, offset % g.clusterSize, size, 0, v⟩
  walk : ∀ c limit, Loop.Ends (walkTurn g table limit) (c, 1)
  free : ∀ (v : Vol) (c lo : ℕ) (ok : Bool), v.table = table →
    Loop.Ends (freeTurn g) (c, ⟨v, lo, lo, 0, ok⟩)

/-- The loops end on a table if and only if neither of the two 16-bit counters can go round for
ever: there is nothing to find for the one, and no end of the chain for the other. -/
theorem loopsEnd_iff (g : Geom) (hg : Accepted g) (table : ℕ → ℕ) : LoopsEnd g table ↔
    (g.noClusters < 2 ^ 16 ∨ ∃ c < 2 ^ 16, table c = 0) ∧
      (g.noClusters < 2 ^ 16 - 1 ∨ ∀ c, fatValidCluster g c = true →
        ∃ l, Chain.Linked (nextOf g table) (some c) l) := by
  have hpos := hg.clusterSize_pos
  constructor
  · intro h
    constructor
    · by_contra hno
      push Not at hno
      exact search_goes_on hno.1 hno.2 (show 2 < 2 ^ 16 by decide) (h.search 2 (by decide))
    · by_contra hno
      push Not at hno
      obtain ⟨hlarge, c, hc, hcycle⟩ := hno
      exact count_goes_on hlarge (not_exists.mpr hcycle) (h.count c hc)
  · rintro ⟨hsearch, hcount⟩
    exact
      { search := fun start hs => search_ends hsearch hs
        count := fun c hc => count_ends hcount hc
        read := fun e v allocate c he _ => read_ends (he ▸ hpos) allocate _
        skip := fun c offset => skip_ends hpos _
        readUser := fun e v size copied c offset he _ hs => by
          subst he
          exact readUser_ends hpos size copied (Nat.mod_lt _ hpos) hs v
        write := fun e v buffer mapped c offset size he _ => by
          subst he
          exact write_ends hpos buffer mapped (Nat.mod_lt _ hpos)
        walk := fun c limit => walk_ends limit _
        free := fun v c lo ok _ => free_ends _ }

theorem smallGeom_accepted : Accepted smallGeom :=
  ⟨by decide, by decide, by decide, by decide, by decide, by decide, by decide⟩

/-- On a small volume all loops end on a full table. -/
theorem loopsEnd_small : LoopsEnd smallGeom fun _ => 0xFFFF :=
  (loopsEnd_iff smallGeom smallGeom_accepted fun _ => 0xFFFF).mpr
    ⟨.inl (by decide), .inl (by decide)⟩

/-- A volume with as many clusters as there are 16-bit numbers. -/
def largeGeom : Geom := ⟨512, 1, 1, 1, 16, 256, 66000⟩

theorem largeGeom_accepted : Accepted largeGeom :=
  ⟨by decide, by decide, by decide, by decide, by decide, by decide, by decide⟩

/-- When it is full, the search for a free cluster does not end, and neither does the count of a
chain that goes round. -/
theorem loops_goOn : Accepted largeGeom ∧ ¬Loop.Ends (searchTurn largeGeom fun _ => 0xFFFF) 2 ∧
    ¬Loop.Ends (countTurn largeGeom fun _ => 2) (2, 1) ∧ ¬LoopsEnd largeGeom fun _ => 0xFFFF := by
  have hsearch : ¬Loop.Ends (searchTurn largeGeom fun _ => 0xFFFF) 2 :=
    search_goes_on (by decide) (fun _ _ => by decide) (by decide)
  refine ⟨largeGeom_accepted, hsearch, count_goes_on (by decide) ?_,
    fun h => hsearch (h.search 2 (by decide))⟩
  rintro ⟨l, hl⟩
  have hself : nextOf largeGeom (fun _ => 2) 2 = some 2 := by decide
  cases l with
  | nil => exact absurd (show some 2 = none from hl) (Option.some_ne_none 2)
  | cons a l =>
    obtain rfl := Option.some.inj hl.1
    have hl' : Chain.Linked (nextOf largeGeom fun _ => 2) (some 2) l := hself ▸ hl.2
    have := congrArg List.length (hl.unique hl')
    simp at this

end Vol

end X86Kernel.Fat
