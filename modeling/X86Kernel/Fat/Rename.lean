import X86Kernel.Fat.Resolve

/-! Renaming: which entries of a directory `fat_rename` changes, and how. -/
namespace X86Kernel.Fat

open Vol

/-- An entry with other name bytes. -/
def Raw.withName (dir : Raw) (newname : ℕ → UInt8) : Raw :=
  fun j => if j < 11 then newname j else dir j

/-- An entry has these name bytes. -/
def Raw.HasName (dir : Raw) (newname : ℕ → UInt8) : Prop := ∀ j < 11, dir j = newname j

/-- The 8.3 form of a name. -/
def form83 (filename : Str) : ℕ → UInt8 :=
  paddedName (strsplit filename dot).1 (strsplit filename dot).2.1

/-- Entry `i` of a directory matches the last part of `path`. -/
def Matches (v : Vol) (region : Region) (path : Str) (i : ℕ) : Prop :=
  i < region.entries ∧ fatEntryMatchesFilename (entryAt (region.buf v.disk) i)
    (strsplit (strsplitLast path slash).2 dot).1
    (strsplit (strsplitLast path slash).2 dot).2.1 = true

/-- The directory in which `fat_rename` looks for the last part of `path`. -/
def renameRegion (e : Env) (v : Vol) (path : Str) : Option Region :=
  let parentpath := renameParent (e.junk v.clock 0) (strsplitLast path slash).1
  let p := if parentpath = [slash] then (v, none) else v.fatParsePath e parentpath false
  parentRegion e.geom (parentpath = [slash]) p.2

/-- The directory that `fat_rename` has read, if it gets that far, and the number of the transfer
that writes it back. -/
def renameRead (e : Env) (v : Vol) (path : Str) : Option (Region × ℕ) :=
  let parentpath := renameParent (e.junk v.clock 0) (strsplitLast path slash).1
  let p := if parentpath = [slash] then (v, none) else v.fatParsePath e parentpath false
  match parentRegion e.geom (parentpath = [slash]) p.2 with
  | none => none
  | some region => if e.io p.1.clock = none then some (region, p.1.clock + 1) else none

/-- What is split off a path fits the buffers for it: `parentpath` with a slash, `oldname`, `name`
and `extension`. -/
def PathFits (path : Str) : Prop :=
  path.length ≤ 510 ∧ (strsplitLast path slash).2.length ≤ 15 ∧ Fits83 (strsplitLast path slash).2

/-- What `fat_parse_path` splits off the path of the parent fits. -/
def ParentFits (e : Env) (v : Vol) (path : Str) : Prop :=
  let parentpath := renameParent (e.junk v.clock 0) (strsplitLast path slash).1
  parentpath ≠ [slash] → ElementsFit e (pathElements parentpath).1 none v

/-- A rename changes one name only. The entry changed is one in use, and the one that the path leads
to on the disk. -/
structure RenamesOne (e : Env) (v : Vol) (path filename : Str) : Prop where
  pathFits : PathFits path
  parentFits : ParentFits e v path
  nameFits : ∀ region t i, renameRead e v path = some (region, t) → Matches v region path i →
    Fits83 filename
  renamed : (v.fatRename e path filename).2 = true →
    ∃ region t i, renameRead e v path = some (region, t) ∧
    region.Live v.disk i ∧ (v.fatParsePath (calm e.geom) path true).2 =
      some (entryAt (region.buf v.disk) i) ∧
    (v.fatRename e path filename).1.disk = blit v.disk (region.addr + 32 * i)
      ((entryAt (region.buf v.disk) i).withName (form83 filename)) 32
  kept : (v.fatRename e path filename).2 = false → (v.fatRename e path filename).1.disk = v.disk

/-- The directory can be written back as a whole. -/
def Region.Aligned (r : Region) : Prop := r.size % ataSectorSize = 0 ∧ r.addr % ataSectorSize = 0

/-- An entry that a rename leaves as it is. -/
def Raw.Renamed (dir : Raw) (filename : Str) : Prop :=
  dir.attributes = 0 ∧ dir.HasName (form83 filename)

/-- The path and, if something matches, the new name fit. If something matches in a directory that
is written, the path leads to an entry in use there, every entry that matches has no attributes, and
those that match beside it have the new name already; and if the write fails, so do all that match
in the sectors written. -/
structure RenameOk (e : Env) (v : Vol) (path filename : Str) : Prop where
  pathFits : PathFits path
  parentFits : ParentFits e v path
  nameFits : ∀ region t i, renameRead e v path = some (region, t) → Matches v region path i →
    Fits83 filename
  one : ∀ region t, renameRead e v path = some (region, t) → (∃ i, Matches v region path i) →
    region.Aligned →
    e.io t = none → ∃ i, region.Live v.disk i ∧
      (v.fatParsePath (calm e.geom) path true).2 = some (entryAt (region.buf v.disk) i) ∧
      (Matches v region path i ∨ (entryAt (region.buf v.disk) i).HasName (form83 filename)) ∧
      ∀ j, Matches v region path j → (entryAt (region.buf v.disk) j).attributes = 0 ∧
        (j = i ∨ (entryAt (region.buf v.disk) j).HasName (form83 filename))
  torn : ∀ region t k, renameRead e v path = some (region, t) → region.Aligned → e.io t = some k →
    ∀ j, Matches v region path j → 32 * j < k * ataSectorSize →
      (entryAt (region.buf v.disk) j).Renamed filename

variable {e : Env} {v : Vol} {path filename : Str}

/-! ### The loop -/

theorem entryAt_setEntry_ne {buf : Buf} {i k : ℕ} (h : k ≠ i) (dir : Raw) :
    entryAt (setEntry buf i dir) k = entryAt buf k := by
  funext j
  unfold entryAt setEntry
  split_ifs with hj hin
  · omega
  · rfl
  · rfl

/-- What the loop of `fat_rename` leaves in each byte. -/
theorem renameFrom_byte (name extension : Str) (newname : ℕ → UInt8) (n : ℕ) :
    ∀ (i : ℕ) (buf : Buf) (x : ℕ),
    (renameFrom name extension newname n i buf).1 x =
      if i ≤ x / 32 ∧ x / 32 < i + n ∧
      fatEntryMatchesFilename (entryAt buf (x / 32)) name extension = true then
        renameEntry (entryAt buf (x / 32)) newname (x % 32) else buf x := by
  induction n with
  | zero => exact fun i buf x => (if_neg (by omega)).symm
  | succ n ih =>
    intro i buf x
    rw [renameFrom]
    by_cases hmatch : fatEntryMatchesFilename (entryAt buf i) name extension = true
    · rw [if_pos hmatch]
      dsimp only
      rw [ih]
      by_cases hx : x / 32 = i
      · rw [if_neg (by omega), hx, if_pos ⟨le_refl _, by omega, hmatch⟩]
        unfold setEntry
        rw [if_pos (by omega), show x - 32 * i = x % 32 by omega]
      · rw [entryAt_setEntry_ne hx]
        have hkeep : setEntry buf i (renameEntry (entryAt buf i) newname) x = buf x :=
          if_neg (by omega)
        rw [hkeep]
        by_cases hin : i + 1 ≤ x / 32 ∧ x / 32 < i + 1 + n ∧
          fatEntryMatchesFilename (entryAt buf (x / 32)) name extension = true
        · rw [if_pos hin, if_pos ⟨by omega, by omega, hin.2.2⟩]
        · rw [if_neg hin, if_neg fun h => hin ⟨by omega, by omega, h.2.2⟩]
    · rw [if_neg hmatch, ih]
      by_cases hin : i + 1 ≤ x / 32 ∧ x / 32 < i + 1 + n ∧
        fatEntryMatchesFilename (entryAt buf (x / 32)) name extension = true
      · rw [if_pos hin, if_pos ⟨by omega, by omega, hin.2.2⟩]
      · rw [if_neg hin, if_neg]
        rintro ⟨hlo, hhi, hm⟩
        by_cases hx : x / 32 = i
        · exact hmatch (hx ▸ hm)
        · exact hin ⟨by omega, by omega, hm⟩

theorem renameFrom_match (name extension : Str) (newname : ℕ → UInt8) (n : ℕ) :
    ∀ (i : ℕ) (buf : Buf),
    (renameFrom name extension newname n i buf).2 = true ↔
      ∃ k, i ≤ k ∧ k < i + n ∧ fatEntryMatchesFilename (entryAt buf k) name extension = true := by
  induction n with
  | zero =>
    exact fun i buf =>
      ⟨fun h => absurd h Bool.false_ne_true, fun ⟨k, hlo, hhi, _⟩ => absurd hhi (by omega)⟩
  | succ n ih =>
    intro i buf
    rw [renameFrom]
    by_cases hmatch : fatEntryMatchesFilename (entryAt buf i) name extension = true
    · rw [if_pos hmatch]
      exact ⟨fun _ => ⟨i, le_refl _, by omega, hmatch⟩, fun _ => rfl⟩
    · rw [if_neg hmatch, ih]
      constructor
      · rintro ⟨k, hlo, hhi, hk⟩
        exact ⟨k, by omega, by omega, hk⟩
      · rintro ⟨k, hlo, hhi, hk⟩
        have hne : k ≠ i := fun heq => hmatch (heq ▸ hk)
        exact ⟨k, by omega, by omega, hk⟩

/-! ### The disk afterwards -/

instance (v : Vol) (region : Region) (path : Str) (i : ℕ) : Decidable (Matches v region path i) :=
  inferInstanceAs (Decidable (_ ∧ _))

/-- The disk with every entry that matches renamed. -/
def renamedDisk (v : Vol) (region : Region) (path : Str) (newname : ℕ → UInt8) :
    ℕ → UInt8 := fun x =>
  if region.addr ≤ x ∧ Matches v region path ((x - region.addr) / 32) then
    renameEntry (entryAt (region.buf v.disk) ((x - region.addr) / 32)) newname
      ((x - region.addr) % 32)
  else v.disk x

/-- The buffer that the loop leaves, written back. -/
theorem blit_renameFrom (v : Vol) (region : Region) (path : Str) (newname : ℕ → UInt8) :
    blit v.disk region.addr (renameFrom (strsplit (strsplitLast path slash).2 dot).1
      (strsplit (strsplitLast path slash).2 dot).2.1 newname region.entries 0 (region.buf v.disk)).1
        region.size =
    renamedDisk v region path newname := by
  funext x
  unfold blit renamedDisk Matches
  rw [renameFrom_byte]
  have hsize : 32 * region.entries ≤ region.size := Nat.mul_div_le _ _
  by_cases hin : region.addr ≤ x ∧ x < region.addr + region.size
  · rw [if_pos hin]
    split_ifs with h1 h2 h3
    · rfl
    · exact absurd ⟨hin.1, by omega, h1.2.2⟩ h2
    · exact absurd ⟨Nat.zero_le _, by omega, h3.2.2⟩ h1
    · unfold Region.buf
      rw [Nat.add_sub_cancel' hin.1]
  · rw [if_neg hin, if_neg]
    rintro ⟨hlo, hlt, -⟩
    exact hin ⟨hlo, by omega⟩

/-- The disk with the first `n` bytes of that directory written. -/
def tornDisk (v : Vol) (region : Region) (path : Str) (newname : ℕ → UInt8) (n : ℕ) :
    ℕ → UInt8 := fun x =>
  if x < region.addr + n then renamedDisk v region path newname x else v.disk x

theorem blit_renameFrom_torn (v : Vol) (region : Region) (path : Str) (newname : ℕ → UInt8) {n : ℕ}
    (hn : n ≤ region.size) :
    blit v.disk region.addr (renameFrom (strsplit (strsplitLast path slash).2 dot).1
      (strsplit (strsplitLast path slash).2 dot).2.1 newname region.entries 0
        (region.buf v.disk)).1 n =
    tornDisk v region path newname n := by
  funext x
  unfold tornDisk
  rw [← blit_renameFrom]
  unfold blit
  by_cases hx : x < region.addr + n
  · rw [if_pos hx]
    exact if_congr (by omega) rfl rfl
  · rw [if_neg hx, if_neg (by omega)]

/-- What a rename does: the directory is written back, or a part of it is, or nothing changes. -/
theorem fatRename_spec (e : Env) (v : Vol) (path filename : Str) :
    (∀ region t, renameRead e v path = some (region, t) → (∃ i, Matches v region path i) →
      region.Aligned →
      match e.io t with
      | none => (v.fatRename e path filename).2 = true ∧
        (v.fatRename e path filename).1.disk = renamedDisk v region path (form83 filename)
      | some k => (v.fatRename e path filename).2 = false ∧ (v.fatRename e path filename).1.disk =
        tornDisk v region path (form83 filename) (min (k * ataSectorSize) region.size)) ∧
    ((∀ region t, renameRead e v path = some (region, t) → (∃ i, Matches v region path i) →
      ¬region.Aligned) →
      (v.fatRename e path filename).2 = false ∧ (v.fatRename e path filename).1.disk = v.disk) := by
  unfold fatRename renameRead
  dsimp only
  generalize renameParent (e.junk v.clock 0) (strsplitLast path slash).1 = parentpath
  have hread : OnlyRead v (if parentpath = [slash] then (v, none)
      else v.fatParsePath e parentpath false).1 := by
    split_ifs
    · exact .refl v
    · exact fatParsePath_onlyRead e v parentpath false
  generalize (if parentpath = [slash] then (v, none) else v.fatParsePath e parentpath false) =
    p at hread ⊢
  cases hregion : parentRegion e.geom (decide (parentpath = [slash])) p.2 with
  | none =>
    exact ⟨fun region t h => (Option.some_ne_none _ h.symm).elim, fun _ => ⟨rfl, hread.disk⟩⟩
  | some region =>
    dsimp only
    unfold ataReadExact
    cases hio : e.io p.1.clock with
    | some k =>
      have hne : ¬(some k : Option ℕ) = none := Option.some_ne_none k
      rw [if_neg hne, if_neg hne]
      exact ⟨fun region t h => (Option.some_ne_none _ h.symm).elim, fun _ => ⟨rfl, hread.disk⟩⟩
    | none =>
    rw [if_pos rfl, if_pos rfl]
    dsimp only
    rw [hread.disk]
    have hbuf : (fun i => v.disk (region.addr + i)) = region.buf v.disk := rfl
    have hmatch := renameFrom_match (strsplit (strsplitLast path slash).2 dot).1
      (strsplit (strsplitLast path slash).2 dot).2.1 (form83 filename) region.entries 0
        (region.buf v.disk)
    have hdisk := blit_renameFrom v region path (form83 filename)
    have htorn (n : ℕ) (hn : n ≤ region.size) :=
      blit_renameFrom_torn v region path (form83 filename) hn
    unfold form83 at hmatch hdisk htorn ⊢
    rw [hbuf]
    generalize renameFrom (strsplit (strsplitLast path slash).2 dot).1
      (strsplit (strsplitLast path slash).2 dot).2.1 _
      region.entries 0 (region.buf v.disk) = m at hmatch hdisk htorn ⊢
    have hiff : m.2 = true ↔ ∃ i, Matches v region path i := by
      rw [hmatch]
      constructor
      · rintro ⟨k, -, hk, hm⟩
        exact ⟨k, by omega, hm⟩
      · rintro ⟨k, hk, hm⟩
        exact ⟨k, Nat.zero_le _, by omega, hm⟩
    have hpos : (∃ i, Matches v region path i) → region.size ≠ 0 := by
      rintro ⟨k, hk, -⟩
      unfold Region.entries at hk
      omega
    constructor
    · intro region' t hregion' hex haligned
      obtain ⟨rfl, rfl⟩ := Prod.mk.inj (Option.some.inj hregion')
      rw [if_pos (hiff.mpr hex)]
      unfold ataWriteExact
      rw [if_neg (hpos hex), if_neg (by rw [not_or, not_not, not_not]; exact haligned)]
      change match e.io (p.1.clock + 1) with | none => _ | some k => _
      cases hwrite : e.io (p.1.clock + 1) with
      | none =>
        rw [show e.io p.1.tick.clock = none from hwrite]
        refine ⟨rfl, ?_⟩
        change blit p.1.disk _ _ _ = _
        rw [hread.disk]
        exact hdisk
      | some k =>
        rw [show e.io p.1.tick.clock = some k from hwrite]
        refine ⟨rfl, ?_⟩
        change blit p.1.disk _ _ _ = _
        rw [hread.disk]
        exact htorn _ (Nat.min_le_right _ _)
    · intro hno
      by_cases hm : m.2 = true
      · have hunaligned := hno region _ rfl (hiff.mp hm)
        rw [if_pos hm]
        unfold ataWriteExact
        rw [if_neg (hpos (hiff.mp hm)),
          if_pos (by by_contra h; rw [not_or, not_not, not_not] at h; exact hunaligned h)]
        exact ⟨rfl, hread.disk⟩
      · rw [if_neg hm]
        exact ⟨rfl, hread.disk⟩

theorem entryAt_buf (region : Region) (disk : ℕ → UInt8) (j : ℕ) {k : ℕ} (hk : k < 32) :
    entryAt (region.buf disk) j k = disk (region.addr + 32 * j + k) := by
  unfold entryAt Region.buf
  rw [if_pos hk, Nat.add_assoc]

/-- Byte `k` of entry `j` afterwards. -/
theorem renamedDisk_byte (v : Vol) (region : Region) (path : Str) (newname : ℕ → UInt8) (j : ℕ)
    {k : ℕ} (hk : k < 32) :
    renamedDisk v region path newname (region.addr + 32 * j + k) =
      if Matches v region path j then renameEntry (entryAt (region.buf v.disk) j) newname k
      else entryAt (region.buf v.disk) j k := by
  unfold renamedDisk
  have hindex : (region.addr + 32 * j + k - region.addr) / 32 = j := by omega
  have hoff : (region.addr + 32 * j + k - region.addr) % 32 = k := by omega
  rw [hindex, hoff, entryAt_buf region v.disk j hk]
  by_cases hm : Matches v region path j
  · rw [if_pos ⟨by omega, hm⟩, if_pos hm]
  · rw [if_neg fun h => hm h.2, if_neg hm]

theorem blit_entry_byte (disk : ℕ → UInt8) (region : Region) (i : ℕ) (dir : Raw) (j : ℕ) {k : ℕ}
    (hk : k < 32) :
    blit disk (region.addr + 32 * i) dir 32 (region.addr + 32 * j + k) =
      if j = i then dir k else entryAt (region.buf disk) j k := by
  unfold blit
  by_cases hj : j = i
  · subst hj
    rw [if_pos (by omega), if_pos rfl, Nat.add_sub_cancel_left]
  · rw [if_neg (by omega), if_neg hj, entryAt_buf region disk j hk]

/-- The disk with all the entries that match renamed is the one with entry `i` renamed exactly when
the others that match have the name already, and no attributes are lost. -/
theorem renamedDisk_eq_iff {region : Region} {i : ℕ} (newname : ℕ → UInt8) :
    renamedDisk v region path newname =
      blit v.disk (region.addr + 32 * i) ((entryAt (region.buf v.disk) i).withName newname) 32 ↔
    (Matches v region path i ∨ (entryAt (region.buf v.disk) i).HasName newname) ∧
      ∀ j, Matches v region path j → (entryAt (region.buf v.disk) j).attributes = 0 ∧
        (j = i ∨ (entryAt (region.buf v.disk) j).HasName newname) := by
  constructor
  · intro heq
    have hbyte : ∀ j k, k < 32 →
          (if Matches v region path j then renameEntry (entryAt (region.buf v.disk) j) newname k
        else entryAt (region.buf v.disk) j k) =
        if j = i then (entryAt (region.buf v.disk) i).withName newname k
        else entryAt (region.buf v.disk) j k := by
      intro j k hk
      rw [← renamedDisk_byte v region path newname j hk, heq, blit_entry_byte _ _ _ _ _ hk]
    constructor
    · by_cases hm : Matches v region path i
      · exact .inl hm
      · refine .inr fun k hk => ?_
        have hk' := hbyte i k (by omega)
        rw [if_neg hm, if_pos rfl] at hk'
        exact hk'.trans (if_pos hk)
    · intro j hm
      have hattr := hbyte j 11 (by decide)
      rw [if_pos hm] at hattr
      by_cases hj : j = i
      · subst hj
        rw [if_pos rfl] at hattr
        exact ⟨hattr.symm, .inl rfl⟩
      · rw [if_neg hj] at hattr
        refine ⟨hattr.symm, .inr fun k hk => ?_⟩
        have hk' := hbyte j k (by omega)
        rw [if_pos hm, if_neg hj] at hk'
        exact hk'.symm.trans (if_pos hk)
  · rintro ⟨hi, hall⟩
    funext x
    by_cases hx : region.addr ≤ x
    · obtain ⟨j, k, hk, rfl⟩ : ∃ j k, k < 32 ∧ x = region.addr + 32 * j + k :=
        ⟨(x - region.addr) / 32, (x - region.addr) % 32, Nat.mod_lt _ (by decide), by omega⟩
      rw [renamedDisk_byte _ _ _ _ _ hk, blit_entry_byte _ _ _ _ _ hk]
      by_cases hm : Matches v region path j
      · obtain ⟨hattr, hname⟩ := hall j hm
        rw [if_pos hm]
        have hrenamed : renameEntry (entryAt (region.buf v.disk) j) newname k =
            (entryAt (region.buf v.disk) j).withName newname k := by
          unfold renameEntry Raw.withName
          split_ifs with hname h11
          · rfl
          · rw [h11]
            exact hattr.symm
          · rfl
        by_cases hj : j = i
        · rw [if_pos hj, hrenamed, hj]
        · rw [if_neg hj, hrenamed]
          unfold Raw.withName
          split_ifs with hk11
          · exact (hname.resolve_left hj k hk11).symm
          · rfl
      · rw [if_neg hm]
        by_cases hj : j = i
        · subst hj
          rw [if_pos rfl]
          unfold Raw.withName
          split_ifs with hk11
          · exact hi.resolve_left hm k hk11
          · rfl
        · rw [if_neg hj]
    · have hblit : blit v.disk (region.addr + 32 * i)
          ((entryAt (region.buf v.disk) i).withName newname) 32 x = v.disk x :=
        if_neg (by omega)
      rw [hblit]
      exact if_neg fun h => hx h.1

/-- The part of the directory that was written is as before exactly when the entries that match
there are. -/
theorem tornDisk_eq_iff {region : Region} (filename : Str) {n : ℕ} (hn : 32 ∣ n) :
    tornDisk v region path (form83 filename) n = v.disk ↔
      ∀ j, Matches v region path j → 32 * j < n →
        (entryAt (region.buf v.disk) j).Renamed filename := by
  constructor
  · intro heq j hm hj
    have hbyte : ∀ k < 32, renameEntry (entryAt (region.buf v.disk) j) (form83 filename) k =
        entryAt (region.buf v.disk) j k := by
      intro k hk
      have hx := congrFun heq (region.addr + 32 * j + k)
      unfold tornDisk at hx
      rw [if_pos (by omega), renamedDisk_byte _ _ _ _ _ hk, if_pos hm] at hx
      rw [hx, entryAt_buf region v.disk j hk]
    constructor
    · exact (hbyte 11 (by decide)).symm
    · intro k hk
      rw [← hbyte k (by omega)]
      exact if_pos hk
  · intro hall
    funext x
    unfold tornDisk
    split_ifs with hx
    · by_cases hlo : region.addr ≤ x
      · obtain ⟨j, k, hk, rfl⟩ : ∃ j k, k < 32 ∧ x = region.addr + 32 * j + k :=
          ⟨(x - region.addr) / 32, (x - region.addr) % 32, Nat.mod_lt _ (by decide), by omega⟩
        rw [renamedDisk_byte _ _ _ _ _ hk, ← entryAt_buf region v.disk j hk]
        split_ifs with hm
        · obtain ⟨hattr, hname⟩ := hall j hm (by omega)
          unfold renameEntry
          split_ifs with h11 heq
          · exact (hname k h11).symm
          · rw [heq]
            exact hattr.symm
          · rfl
        · rfl
      · exact if_neg fun h => hlo h.1
    · rfl

/-- A rename changes one name only, unless an entry that matches has attributes, or another one
matches too. -/
theorem renamesOne_iff (e : Env) (v : Vol) (path filename : Str) :
    RenamesOne e v path filename ↔ RenameOk e v path filename := by
  obtain ⟨hdone, hnot⟩ := fatRename_spec e v path filename
  -- an aligned directory is made of whole entries
  have hmin : ∀ {region : Region} (k j : ℕ), region.Aligned → Matches v region path j →
      (32 ∣ min (k * ataSectorSize) region.size) ∧
        (32 * j < min (k * ataSectorSize) region.size ↔ 32 * j < k * ataSectorSize) := by
    intro region k j haligned hm
    have hsize : 512 ∣ region.size := Nat.dvd_of_mod_eq_zero haligned.1
    have hj := hm.1
    unfold Region.entries at hj
    unfold ataSectorSize
    omega
  constructor
  · intro h
    refine ⟨h.pathFits, h.parentFits, h.nameFits, fun region t hread hex haligned hio => ?_,
      fun region t k hread haligned hio j hm hj => ?_⟩
    · have hwritten := hdone region t hread hex haligned
      rw [hio] at hwritten
      obtain ⟨htrue, hdisk⟩ := hwritten
      obtain ⟨region', t', i, hread', hlive, hfind, heq⟩ := h.renamed htrue
      obtain ⟨rfl, rfl⟩ := Prod.mk.inj (Option.some.inj (hread'.symm.trans hread))
      obtain ⟨hi, hall⟩ := (renamedDisk_eq_iff (form83 filename)).mp (hdisk.symm.trans heq)
      exact ⟨i, hlive, hfind, hi, hall⟩
    · have hwritten := hdone region t hread ⟨j, hm⟩ haligned
      rw [hio] at hwritten
      obtain ⟨hfalse, hdisk⟩ := hwritten
      obtain ⟨hdvd, hlt⟩ := hmin k j haligned hm
      exact (tornDisk_eq_iff filename hdvd).mp (hdisk.symm.trans (h.kept hfalse)) j hm (hlt.mpr hj)
  · intro h
    by_cases hwrites : ∃ region t, renameRead e v path = some (region, t) ∧
      (∃ i, Matches v region path i) ∧
        region.Aligned
    · obtain ⟨region, t, hread, hex, haligned⟩ := hwrites
      have hwritten := hdone region t hread hex haligned
      cases hio : e.io t with
      | none =>
        rw [hio] at hwritten
        obtain ⟨htrue, hdisk⟩ := hwritten
        obtain ⟨i, hlive, hfind, hi, hall⟩ := h.one region t hread hex haligned hio
        refine ⟨h.pathFits, h.parentFits, h.nameFits,
          fun _ => ⟨region, t, i, hread, hlive, hfind, ?_⟩, fun hfalse => ?_⟩
        · rw [hdisk]
          exact (renamedDisk_eq_iff (form83 filename)).mpr ⟨hi, hall⟩
        · rw [htrue] at hfalse
          exact absurd hfalse.symm Bool.false_ne_true
      | some k =>
        rw [hio] at hwritten
        obtain ⟨hfalse, hdisk⟩ := hwritten
        refine ⟨h.pathFits, h.parentFits, h.nameFits, fun htrue => ?_, fun _ => ?_⟩
        · rw [hfalse] at htrue
          exact absurd htrue Bool.false_ne_true
        · obtain ⟨i, hm⟩ := hex
          rw [hdisk, tornDisk_eq_iff filename (hmin k i haligned hm).1]
          exact fun j hm hj =>
            h.torn region t k hread haligned hio j hm ((hmin k j haligned hm).2.mp hj)
    · obtain ⟨hfalse, hdisk⟩ := hnot fun region t hread hex haligned =>
        hwrites ⟨region, t, hread, hex, haligned⟩
      refine ⟨h.pathFits, h.parentFits, h.nameFits, fun htrue => ?_, fun _ => hdisk⟩
      rw [hfalse] at htrue
      exact absurd htrue Bool.false_ne_true

/-- A volume with a file `A` that has no attributes. -/
def plainFile : Vol :=
  { disk := blit (fun _ => 0) smallGeom.rootAddr (newEntry (paddedName [65] []) 0 2) 32
    table := Function.update (fun _ => 0) 2 0xFFFF
    dirty := fun _ => false
    clock := 0 }

theorem plainFile_matches {i : ℕ} (h : Matches plainFile smallGeom.rootRegion [slash, 65] i) :
    i = 0 := by
  have hall : ∀ i < 16, Matches plainFile smallGeom.rootRegion [slash, 65] i → i = 0 := by
    decide +kernel
  exact hall i h.1 h

/-- `A` becomes `B`. -/
theorem plainFile_renamesOne : RenamesOne (calm smallGeom) plainFile [slash, 65] [66] ∧
    (plainFile.fatRename (calm smallGeom) [slash, 65] [66]).2 = true := by
  refine ⟨(renamesOne_iff (calm smallGeom) plainFile _ _).mpr ?_, by decide +kernel⟩
  have hread : renameRead (calm smallGeom) plainFile [slash, 65] = some (smallGeom.rootRegion, 1) :=
    rfl
  have hfits : Fits83 [65] := ⟨by decide, by decide⟩
  have hnew : Fits83 [66] := ⟨by decide, by decide⟩
  refine ⟨⟨by decide, by decide, hfits⟩, fun hne => absurd rfl hne, fun _ _ _ _ _ => hnew,
    fun region t hr _ _ _ => ⟨0, ?_⟩,
    fun _ _ _ _ _ hfails => nomatch hfails⟩
  obtain ⟨rfl, rfl⟩ := Prod.mk.inj (Option.some.inj (hread.symm.trans hr))
  refine ⟨by decide +kernel, rfl, .inl (by decide +kernel), fun j hj => ?_⟩
  obtain rfl := plainFile_matches hj
  exact ⟨by decide +kernel, .inl rfl⟩

/-- `D` becomes `E`, and a file. -/
theorem oneDir_rename : ¬RenamesOne (calm smallGeom) oneDir [slash, 68] [69] := by
  intro h
  have hread : renameRead (calm smallGeom) oneDir [slash, 68] = some (smallGeom.rootRegion, 1) :=
    rfl
  have hmatch : Matches oneDir smallGeom.rootRegion [slash, 68] 0 := by decide +kernel
  obtain ⟨htrue, hdisk⟩ :=
    (fatRename_spec (calm smallGeom) oneDir [slash, 68] [69]).1 _ _ hread ⟨0, hmatch⟩
    ⟨by decide, by decide⟩
  obtain ⟨region, t, i, hr, -, -, heq⟩ := h.renamed htrue
  obtain ⟨rfl, rfl⟩ := Prod.mk.inj (Option.some.inj (hr.symm.trans hread))
  have hattr := (((renamedDisk_eq_iff _).mp (hdisk.symm.trans heq)).2 0 hmatch).1
  exact absurd hattr (by decide +kernel)

end X86Kernel.Fat
