import X86Kernel.Fat.FlushRun
import X86Kernel.Fat.Created

/-! Unique names: when the calls that create, rename and delete keep the names of a directory
apart. -/
namespace X86Kernel.Fat

open Vol

/-- The calls that change the names on a volume. -/
inductive NameCall where
  | newFile (path : Str)
  | newDir (path : Str)
  | rename (path filename : Str)
  | deleteFile (path : Str)
  | deleteDir (path : Str)

def NameCall.exec (e : Env) (v : Vol) : NameCall → Vol × Bool
  | newFile path => v.fatNewFile e path
  | newDir path => v.fatNewDir e path
  | rename path filename => v.fatRename e path filename
  | deleteFile path => v.fatDeleteFile e path
  | deleteDir path => v.fatDeleteDir e path

/-- A directory of the tree. -/
def DirIn (g : Geom) (v : Vol) (d : ℕ) : Prop := ∃ dirs, InTree g v dirs ∧ here dirs = d

/-- No two entries in use match the same name. -/
def UniqueIn (g : Geom) (v : Vol) (d : ℕ) : Prop :=
  ∀ i j name extension, (dirRegion g d).Live v.disk i → (dirRegion g d).Live v.disk j →
    fatEntryMatchesFilename (entryIn g v d i) name extension = true →
    fatEntryMatchesFilename (entryIn g v d j) name extension = true → i = j

/-- Every directory but the root has a cluster, and no directory has a name twice. -/
structure UniqueNames (g : Geom) (v : Vol) : Prop where
  area : ∀ d, DirIn g v d → g.IsArea d
  unique : ∀ d, DirIn g v d → UniqueIn g v d

/-- The directory that a new entry goes to. -/
def createRegion (e : Env) (v : Vol) (path : Str) : Option Region :=
  parentRegion e.geom ((splitParent path).1 = [slash])
    (v.fatParsePath e (splitParent path).1 true).2

/-- Directory `d` can take this entry: an entry in use that matches the same names has the same 11
bytes, which the existence check finds; and what follows the end mark, if anything does, is another
one. -/
structure TakesName (g : Geom) (v : Vol) (d : ℕ) (dir : Raw) : Prop where
  seen : ∀ j, (dirRegion g d).Live v.disk j → (entryIn g v d j).key = dir.key →
    sameName (entryIn g v d j) dir = true
  mark : ∀ j, (∀ k < j, (entryIn g v d k).isEnd = false) → (entryIn g v d j).isEnd = true →
    j + 1 < (dirRegion g d).entries →
    (entryIn g v d (j + 1)).isEnd = true

/-- The entries of directory `d` that match the last part of `path` can be renamed: the part before
the dot is not empty and does not begin as a deleted entry does, and no other entry in use has the
new name. -/
structure FreesName (g : Geom) (v : Vol) (d : ℕ) (path filename : Str) : Prop where
  old : (strsplit (strsplitLast path slash).2 dot).1 ≠ [] ∧
    (strsplit (strsplitLast path slash).2 dot).1.head? ≠ some 0xE5
  fresh : ∀ j, (dirRegion g d).Live v.disk j → ¬Matches v (dirRegion g d) path j →
    (entryIn g v d j).key ≠ Raw.key (form83 filename)

/-- What lies on the stack behind the name that `fat_new_dir` stores. -/
def newDirJunk (e : Env) (v : Vol) (path : Str) : ℕ → UInt8 :=
  e.junk (if (splitParent path).1 = [slash] then v
    else (v.fatParsePath e (splitParent path).1 true).1).clock

/-- The calls that keep names apart. Names fit their buffers. The directory that is changed, if one
is found, is the root or a valid cluster; and if it is one of the tree, it takes the new name. A new
directory is not put in place of one of the tree. -/
def NameCall.Safe (e : Env) (v : Vol) : NameCall → Prop
  | newFile path =>
    Fits83 (splitParent path).2 ∧ ∀ region, createRegion e v path = some region →
    ∃ d, e.geom.IsArea d ∧
      region = dirRegion e.geom d ∧
      (DirIn e.geom v d → TakesName e.geom v d (fileEntry (splitParent path).2 0))
  | newDir path =>
    (∀ region, createRegion e v path = some region →
      ∃ d, e.geom.IsArea d ∧ region = dirRegion e.geom d ∧
      (DirIn e.geom v d →
        TakesName e.geom v d (subdirEntry (newDirJunk e v path) (splitParent path).2 0))) ∧
      ∀ f, v.findFree e.geom 2 = some f → ¬DirIn e.geom v f
  | rename path filename =>
    PathFits path ∧ ∀ region, renameRegion e v path = some region → ∃ d, e.geom.IsArea d ∧
      region = dirRegion e.geom d ∧ (∀ i, Matches v region path i → Fits83 filename) ∧
      (DirIn e.geom v d → FreesName e.geom v d path filename)
  | deleteFile path | deleteDir path =>
    ∀ u d, OnlyRead v u → (u.parentCluster e path).2 = some d → e.geom.IsArea d

variable {g : Geom} {v v' : Vol} {e : Env} {d i f : ℕ} {dir : Raw} {path filename : Str}

/-! ### The tree -/

theorem dirIn_root (g : Geom) (v : Vol) : DirIn g v 0 := ⟨[], .root, rfl⟩

theorem DirIn.sub (h : DirIn g v d) (hlive : (dirRegion g d).Live v.disk i)
    (hdir : (entryIn g v d i).isDir = true)
    (hdots : isDots (entryIn g v d i) = false) : DirIn g v (entryIn g v d i).firstClusterNo := by
  obtain ⟨dirs, hin, rfl⟩ := h
  exact ⟨_, .sub hin hlive hdir hdots, rfl⟩

theorem matches_iff {name extension : Str} : fatEntryMatchesFilename dir name extension = true ↔
    dir.key = (strtoupper name, strtoupper extension) := by
  unfold fatEntryMatchesFilename
  exact beq_iff_eq

/-- Two entries match the same name just when they have the same key. -/
theorem uniqueIn_iff : UniqueIn g v d ↔
    ∀ i j, (dirRegion g d).Live v.disk i → (dirRegion g d).Live v.disk j →
    (entryIn g v d i).key = (entryIn g v d j).key → i = j := by
  constructor
  · intro h i j hi hj hkey
    have hself : fatEntryMatchesFilename (entryIn g v d i) (entryIn g v d i).name
        (entryIn g v d i).extension = true :=
      matches_iff.mpr rfl
    refine h i j _ _ hi hj hself (matches_iff.mpr ?_)
    rw [← hkey]
    rfl
  · intro h i j name extension hi hj hmi hmj
    exact h i j hi hj ((matches_iff.mp hmi).trans (matches_iff.mp hmj).symm)

/-- The rule by which names stay unique: those of each directory there was do, an entry in use leads
to one of these directories or to a new one, and a new one has only `.` and `..`. -/
theorem UniqueNames.step (h : UniqueNames g v) (New : ℕ → Prop)
    (hunique : ∀ d, DirIn g v d → UniqueIn g v' d)
    (hsub : ∀ d i, DirIn g v d → (dirRegion g d).Live v'.disk i → (entryIn g v' d i).isDir = true →
      isDots (entryIn g v' d i) = false → DirIn g v (entryIn g v' d i).firstClusterNo ∨
        New (entryIn g v' d i).firstClusterNo)
    (hnew : ∀ f, New f → fatValidCluster g f = true ∧ UniqueIn g v' f ∧
      ∀ i, (dirRegion g f).Live v'.disk i → isDots (entryIn g v' f i) = true) :
    UniqueNames g v' := by
  have hdirs : ∀ d, DirIn g v' d → DirIn g v d ∨ New d := by
    rintro d ⟨dirs, hin, rfl⟩
    induction hin with
    | root => exact .inl (dirIn_root g v)
    | @sub dirs i hin hlive hdir hdots ih =>
      rcases ih with hold | hfresh
      · exact hsub _ i hold hlive hdir hdots
      · exact absurd (((hnew _ hfresh).2.2 i hlive).symm.trans hdots) Bool.noConfusion
  constructor
  · intro d hd
    exact (hdirs d hd).elim (h.area d) fun hf => .inr (hnew d hf).1
  · intro d hd
    exact (hdirs d hd).elim (hunique d) fun hf => (hnew d hf).2.1

/-! ### What is written to a directory -/

/-- Every directory has the entries it had. -/
def SameEntries (g : Geom) (v v' : Vol) : Prop :=
  ∀ d j, g.IsArea d → entryIn g v' d j = entryIn g v d j

theorem SameEntries.of_disk (h : v'.disk = v.disk) : SameEntries g v v' := fun d j _ => by
  unfold entryIn
  rw [h]

theorem SameEntries.of_flush (hg : e.geom.Ok) (v : Vol) (start stop : ℕ) :
    SameEntries e.geom v (v.fatTableFlushCache e start stop).1 :=
  fun _ _ hd => entryIn_flushed hg (flushed_fatTableFlushCache hg v start stop) hd

theorem SameEntries.trans {w : Vol} (h : SameEntries g v v') (h' : SameEntries g v' w) :
    SameEntries g v w :=
  fun d j hd => (h' d j hd).trans (h d j hd)

theorem SameEntries.release (hg : e.geom.Ok) (v : Vol) (c : ℕ) :
    SameEntries e.geom v (v.releaseCluster e c) :=
  .trans (.of_disk (fatTableUpdateCluster_clock e.geom v c 0).2) (.of_flush hg _ c c)

/-- The 32 bytes of an entry that are stored. -/
def Raw.stored (dir : Raw) : Raw := fun k => if k < 32 then dir k else 0

theorem entryAt_setEntry (buf : Buf) (i : ℕ) (dir : Raw) :
    entryAt (setEntry buf i dir) i = dir.stored := by
  funext k
  unfold entryAt setEntry Raw.stored
  split_ifs with hk hin
  · rw [Nat.add_sub_cancel_left]
  · omega
  · rfl

/-- A directory that is written back has some of its entries from what is written, and all of them
if that succeeds. -/
theorem write_entries (hg : e.geom.Ok) (hd : e.geom.IsArea d) (v : Vol) (buf : Buf) :
    ∃ n, ((v.ataWriteExact e (dirRegion e.geom d).addr buf (dirRegion e.geom d).size).2 = true →
      (dirRegion e.geom d).entries ≤ n) ∧
      ∀ d' j, e.geom.IsArea d' → j < (dirRegion e.geom d').entries →
        entryIn e.geom
          (v.ataWriteExact e (dirRegion e.geom d).addr buf (dirRegion e.geom d).size).1 d' j =
          if d' = d ∧ j < n then entryAt buf j else entryIn e.geom v d' j := by
  obtain ⟨m, hm, hdvd, hdisk, hall, -⟩ :=
    ataWriteExact_cases e v (dirRegion e.geom d).addr buf (dirRegion e.geom d).size
  refine ⟨m / 32, fun hok => ?_, fun d' j hd' hj => ?_⟩
  · rw [hall hok]
    exact le_refl _
  -- a sector holds whole entries
  have h32 : 32 * (m / 32) = m := Nat.mul_div_cancel' (Dvd.dvd.trans (by decide) hdvd)
  split_ifs with hin
  · obtain ⟨rfl, hn⟩ := hin
    funext k
    unfold entryIn entryAt Region.buf
    rw [hdisk]
    split_ifs with hk
    · rw [blit_inside (by omega) (by omega), Nat.add_sub_cancel_left]
    · rfl
  · refine entryIn_congr fun k hk => ?_
    have hlt := slot_lt hj hk
    rw [hdisk]
    refine blit_outside ?_
    by_cases hsame : d' = d
    · subst hsame
      have : ¬j < m / 32 := fun h => hin ⟨rfl, h⟩
      omega
    · have := hg.apart hd' hd hsame
      omega

theorem storeEntry_entries (hg : e.geom.Ok) (hd : e.geom.IsArea d) (v : Vol) (i : ℕ) (dir : Raw)
    (d' j : ℕ) (hd' : e.geom.IsArea d') (hj : j < (dirRegion e.geom d').entries) :
    entryIn e.geom (v.storeEntry e (dirRegion e.geom d) ((dirRegion e.geom d).buf v.disk) i dir).1
      d' j = entryIn e.geom v d' j ∨
      d' = d ∧ j = i ∧ entryIn e.geom
        (v.storeEntry e (dirRegion e.geom d) ((dirRegion e.geom d).buf v.disk) i dir).1 d' j =
        dir.stored := by
  obtain ⟨n, -, hentries⟩ :=
    write_entries hg hd v (setEntry ((dirRegion e.geom d).buf v.disk) i dir)
  unfold storeEntry
  rw [hentries d' j hd' hj]
  split_ifs with hin
  · obtain ⟨rfl, -⟩ := hin
    by_cases hji : j = i
    · subst hji
      exact .inr ⟨rfl, rfl, entryAt_setEntry _ j dir⟩
    · exact .inl (entryAt_setEntry_ne hji dir)
  · exact .inl rfl

/-! ### Deletion -/

/-- Entries are kept, or marked deleted. -/
def OnlyDeletes (g : Geom) (v v' : Vol) : Prop := ∀ d j, g.IsArea d → j < (dirRegion g d).entries →
  entryIn g v' d j = entryIn g v d j ∨ (entryIn g v' d j).isDeleted = true ∧
    (entryIn g v d j).isEnd = false

theorem SameEntries.onlyDeletes (h : SameEntries g v v') : OnlyDeletes g v v' :=
  fun d j hd _ => .inl (h d j hd)

theorem OnlyDeletes.same {w : Vol} (h : OnlyDeletes g v v') (h' : SameEntries g v' w) :
    OnlyDeletes g v w := by
  intro d j hd hj
  rw [h' d j hd]
  exact h d j hd hj

theorem OnlyDeletes.after {w : Vol} (h : OnlyDeletes g v' w) (h' : v'.disk = v.disk) :
    OnlyDeletes g v w := by
  intro d j hd hj
  rw [← (SameEntries.of_disk h') d j hd]
  exact h d j hd hj

/-- What is in use where entries were only deleted was in use before, and is the same. -/
theorem OnlyDeletes.live (h : OnlyDeletes g v v') (hd : g.IsArea d)
    (hlive : (dirRegion g d).Live v'.disk i) :
    (dirRegion g d).Live v.disk i ∧ entryIn g v' d i = entryIn g v d i := by
  obtain ⟨hlt, hend, hdel⟩ := hlive
  have hsame : entryIn g v' d i = entryIn g v d i := by
    rcases h d i hd hlt with hsame | ⟨hgone, -⟩
    · exact hsame
    · exact absurd (hgone.symm.trans hdel) Bool.noConfusion
  refine ⟨⟨hlt, fun j hj => ?_, ?_⟩, hsame⟩
  · rcases h d j hd (by omega) with hkept | ⟨-, hbefore⟩
    · exact (congrArg Raw.isEnd hkept).symm.trans (hend j hj)
    · exact hbefore
  · exact (congrArg Raw.isDeleted hsame).symm.trans hdel

theorem UniqueNames.onlyDeletes (h : UniqueNames g v) (hdel : OnlyDeletes g v v') :
    UniqueNames g v' := by
  refine h.step (fun _ => False) (fun d hd => uniqueIn_iff.mpr fun i j hi hj hkey => ?_)
    (fun d i hd hlive hdir hdots => ?_)
    fun _ hf => hf.elim
  · obtain ⟨hi', hsame⟩ := hdel.live (h.area d hd) hi
    obtain ⟨hj', hsame'⟩ := hdel.live (h.area d hd) hj
    rw [hsame, hsame'] at hkey
    exact uniqueIn_iff.mp (h.unique d hd) i j hi' hj' hkey
  · obtain ⟨hlive', hsame⟩ := hdel.live (h.area d hd) hlive
    rw [hsame] at hdir hdots ⊢
    exact .inl (hd.sub hlive' hdir hdots)

theorem fatUpdateInDir_onlyDeletes (hg : e.geom.Ok) (hd : e.geom.IsArea d) (v : Vol)
    (name extension : Str) (dir : Raw) :
    OnlyDeletes e.geom v (v.fatUpdateInDir e d name extension dir.setDeleted).1 := by
  unfold fatUpdateInDir ataReadExact
  dsimp only
  cases e.io v.clock with
  | some k =>
    rw [if_neg (Option.some_ne_none k)]
    exact SameEntries.onlyDeletes (.of_disk rfl)
  | none =>
    rw [if_pos rfl]
    dsimp only
    have hbuf : (fun k => v.disk ((dirRegion e.geom d).addr + k)) =
        (dirRegion e.geom d).buf v.tick.disk := rfl
    rw [hbuf]
    cases hscan : scanFrom ((dirRegion e.geom d).buf v.tick.disk) name extension
      (dirRegion e.geom d).entries 0 with
    | none => exact SameEntries.onlyDeletes (.of_disk rfl)
    | some i =>
      intro d' j hd' hj
      rcases storeEntry_entries hg hd v.tick i dir.setDeleted d' j hd' hj
        with hsame | ⟨rfl, rfl, hstored⟩
      · exact .inl hsame
      · refine .inr ⟨?_, (scanFrom_spec _ hscan).2.2.1 j (Nat.zero_le j) (le_refl j)⟩
        rw [hstored]
        rfl

theorem deleteEntry_onlyDeletes (hg : e.geom.Ok)
    (hparent : ∀ u d, OnlyRead v u → (u.parentCluster e path).2 = some d → e.geom.IsArea d)
    {u : Vol} (hu : OnlyRead v u) (dir : Raw) (extension : Str) :
    OnlyDeletes e.geom v (u.deleteEntry e path dir extension).1 := by
  have hread := hu.trans (parentCluster_onlyRead e u path)
  have harea := hparent u
  unfold deleteEntry
  dsimp only
  generalize u.parentCluster e path = p at hread harea ⊢
  cases hp : p.2 with
  | none => exact SameEntries.onlyDeletes (.of_disk hread.disk)
  | some d =>
    have hmark :=
      (fatUpdateInDir_onlyDeletes hg (harea d hu hp) p.1 dir.name extension dir).after hread.disk
    dsimp only
    generalize p.1.fatUpdateInDir e d dir.name extension dir.setDeleted = w at hmark ⊢
    split_ifs
    · refine hmark.same (.trans (.of_disk ?_) (.of_flush hg _ _ _))
      exact (freeChain_clock e.geom _ _ _).2
    · exact hmark

theorem fatDeleteFile_onlyDeletes (hg : e.geom.Ok)
    (hparent : ∀ u d, OnlyRead v u → (u.parentCluster e path).2 = some d → e.geom.IsArea d) :
    OnlyDeletes e.geom v (v.fatDeleteFile e path).1 := by
  have hread := fatParsePath_onlyRead e v path true
  unfold fatDeleteFile
  dsimp only
  generalize v.fatParsePath e path true = p at hread ⊢
  cases p.2 with
  | none => exact SameEntries.onlyDeletes (.of_disk hread.disk)
  | some file => exact deleteEntry_onlyDeletes hg hparent hread file file.extension

theorem fatDeleteDir_onlyDeletes (hg : e.geom.Ok)
    (hparent : ∀ u d, OnlyRead v u → (u.parentCluster e path).2 = some d → e.geom.IsArea d) :
    OnlyDeletes e.geom v (v.fatDeleteDir e path).1 := by
  have hread := fatParsePath_onlyRead e v path true
  have hkept : SameEntries e.geom v (v.fatParsePath e path true).1 := .of_disk hread.disk
  unfold fatDeleteDir ataReadExact
  dsimp only
  generalize v.fatParsePath e path true = p at hread hkept ⊢
  cases p.2 with
  | none => exact hkept.onlyDeletes
  | some dir =>
    dsimp only
    split_ifs
    · exact hkept.onlyDeletes
    · dsimp only
      split_ifs
      · exact deleteEntry_onlyDeletes hg hparent (hread.trans (.tick _)) dir []
      · exact hkept.onlyDeletes
    · exact hkept.onlyDeletes

/-! ### Renaming -/

/-- What the loop of `fat_rename` leaves in each entry. -/
theorem entryAt_renameFrom {buf : Buf} {name extension : Str} {newname : ℕ → UInt8} {n j : ℕ}
    (hj : j < n) :
    entryAt (renameFrom name extension newname n 0 buf).1 j =
      if fatEntryMatchesFilename (entryAt buf j) name extension = true then
        (renameEntry (entryAt buf j) newname).stored
      else entryAt buf j := by
  have hbyte : ∀ k < 32, (renameFrom name extension newname n 0 buf).1 (32 * j + k) =
      if fatEntryMatchesFilename (entryAt buf j) name extension = true then
        renameEntry (entryAt buf j) newname k
      else buf (32 * j + k) := by
    intro k hk
    rw [renameFrom_byte, show (32 * j + k) / 32 = j by omega, show (32 * j + k) % 32 = k by omega]
    by_cases hmatch : fatEntryMatchesFilename (entryAt buf j) name extension = true
    · rw [if_pos ⟨Nat.zero_le j, by omega, hmatch⟩, if_pos hmatch]
    · rw [if_neg fun h => hmatch h.2.2, if_neg hmatch]
  split_ifs with hmatch
  · funext k
    by_cases hk : k < 32
    · have := hbyte k hk
      rw [if_pos hmatch] at this
      unfold Raw.stored
      rw [if_pos hk, ← this]
      exact if_pos hk
    · unfold Raw.stored
      rw [if_neg hk]
      exact if_neg hk
  · funext k
    unfold entryAt
    split_ifs with hk
    · have := hbyte k hk
      rwa [if_neg hmatch] at this
    · rfl

theorem fatRename_entries (hg : e.geom.Ok) (filename : Str)
    (hparent : ∀ region, renameRegion e v path = some region →
      ∃ d, e.geom.IsArea d ∧ region = dirRegion e.geom d) (d' j : ℕ)
    (hd' : e.geom.IsArea d') (hj : j < (dirRegion e.geom d').entries) :
    entryIn e.geom (v.fatRename e path filename).1 d' j = entryIn e.geom v d' j ∨
      renameRegion e v path = some (dirRegion e.geom d') ∧ Matches v (dirRegion e.geom d') path j ∧
        entryIn e.geom (v.fatRename e path filename).1 d' j =
        (renameEntry (entryIn e.geom v d' j) (form83 filename)).stored := by
  unfold renameRegion at hparent ⊢
  unfold fatRename
  dsimp only at hparent ⊢
  generalize renameParent (e.junk v.clock 0) (strsplitLast path slash).1 = parentpath at hparent ⊢
  have hread : OnlyRead v (if parentpath = [slash] then (v, none)
      else v.fatParsePath e parentpath false).1 := by
    split_ifs
    · exact .refl v
    · exact fatParsePath_onlyRead e v parentpath false
  generalize (if parentpath = [slash] then (v, none) else v.fatParsePath e parentpath false) = p
    at hparent hread ⊢
  cases hregion : parentRegion e.geom (decide (parentpath = [slash])) p.2 with
  | none => exact .inl (SameEntries.of_disk hread.disk d' j hd')
  | some region =>
    obtain ⟨d, hd, rfl⟩ := hparent region hregion
    dsimp only
    unfold ataReadExact
    dsimp only
    cases e.io p.1.clock with
    | some k =>
      rw [if_neg (Option.some_ne_none k)]
      exact .inl (SameEntries.of_disk hread.disk d' j hd')
    | none =>
      rw [if_pos rfl]
      dsimp only
      rw [hread.disk]
      have hbuf : (fun k => v.disk ((dirRegion e.geom d).addr + k)) =
          (dirRegion e.geom d).buf v.disk := rfl
      rw [hbuf]
      split_ifs
      · obtain ⟨n, -, hentries⟩ := write_entries hg hd p.1.tick
          (renameFrom (strsplit (strsplitLast path slash).2 dot).1
            (strsplit (strsplitLast path slash).2 dot).2.1
            (form83 filename) (dirRegion e.geom d).entries 0 ((dirRegion e.geom d).buf v.disk)).1
        unfold form83 at hentries ⊢
        rw [hentries d' j hd' hj]
        by_cases hin : d' = d ∧ j < n
        · rw [if_pos hin]
          obtain ⟨rfl, -⟩ := hin
          rw [entryAt_renameFrom hj]
          split_ifs with hmatch
          · exact .inr ⟨rfl, ⟨hj, hmatch⟩, rfl⟩
          · exact .inl rfl
        · rw [if_neg hin]
          exact .inl (SameEntries.of_disk hread.disk d' j hd')
      · exact .inl (SameEntries.of_disk hread.disk d' j hd')

/-- An entry that matches a name is no end mark, if the name is not empty, and not deleted, if the
name does not begin so. -/
theorem isEnd_of_matches {name extension : Str}
    (h : fatEntryMatchesFilename dir name extension = true) (hne : name ≠ [])
    (hfirst : name.head? ≠ some 0xE5) : dir.isEnd = false ∧ dir.isDeleted = false := by
  have hkey := congrArg Prod.fst (matches_iff.mp h)
  change strtoupper dir.name = strtoupper name at hkey
  cases name with
  | nil => exact absurd rfl hne
  | cons b name =>
    cases hname : dir.name with
    | nil =>
      rw [hname] at hkey
      exact absurd hkey (List.cons_ne_nil _ _).symm
    | cons c rest =>
      rw [hname] at hkey
      have hupper : toupper c = toupper b := (List.cons.inj hkey).1
      have hhead : dir 0 = c ∧ (dir 0 ≠ 0 && dir 0 ≠ space) = true := by
        have hmap : (List.range 8).map dir = dir 0 :: (List.range 7).map (fun j => dir (j + 1)) :=
          rfl
        unfold Raw.name at hname
        rw [hmap, List.takeWhile_cons] at hname
        split_ifs at hname with hkeep
        exact ⟨(List.cons.inj hname).1, hkeep⟩
      have hzero : dir 0 ≠ 0 := of_decide_eq_true (Bool.and_eq_true_iff.mp hhead.2).1
      refine ⟨beq_eq_false_iff_ne.mpr hzero, beq_eq_false_iff_ne.mpr fun hdel => hfirst ?_⟩
      rw [← hhead.1, hdel] at hupper
      have hb : toupper b = 0xE5 := hupper.symm
      rw [toupper_eq_iff (by decide) (by decide)] at hb
      rw [hb]
      rfl

theorem key_renamed (dir : Raw) (newname : ℕ → UInt8) :
    (renameEntry dir newname).stored.key = Raw.key newname := rfl

theorem not_isDir_renamed (dir : Raw) (newname : ℕ → UInt8) :
    (renameEntry dir newname).stored.isDir = false := by
  change (0 &&& 0x10 != (0 : UInt8)) = false
  decide

/-- Areas with entries are told apart by where they are. -/
theorem dirRegion_inj (hg : g.Ok) {d' j : ℕ} (hd : g.IsArea d) (hd' : g.IsArea d')
    (h : dirRegion g d = dirRegion g d') (hj : j < (dirRegion g d).entries) : d = d' := by
  by_contra hne
  have hapart := hg.apart hd hd' hne
  have hpos := slot_lt hj (k := 0) (by decide)
  rw [← h] at hapart
  omega

theorem UniqueNames.rename (hg : e.geom.Ok) (h : UniqueNames e.geom v)
    (hsafe : (NameCall.rename path filename).Safe e v) :
    UniqueNames e.geom (v.fatRename e path filename).1 := by
  have hparent : ∀ region, renameRegion e v path = some region →
      ∃ d, e.geom.IsArea d ∧ region = dirRegion e.geom d := by
    intro region hregion
    obtain ⟨d, hd, heq, -⟩ := hsafe.2 region hregion
    exact ⟨d, hd, heq⟩
  have hentries := fatRename_entries hg filename hparent
  generalize (v.fatRename e path filename).1 = v' at hentries ⊢
  -- an entry of a directory of the tree that is renamed meets the conditions
  have hslot : ∀ d j, DirIn e.geom v d → j < (dirRegion e.geom d).entries →
        entryIn e.geom v' d j = entryIn e.geom v d j ∨
      FreesName e.geom v d path filename ∧ Matches v (dirRegion e.geom d) path j ∧
        entryIn e.geom v' d j = (renameEntry (entryIn e.geom v d j) (form83 filename)).stored := by
    intro d j hd hj
    rcases hentries d j (h.area d hd) hj with hsame | ⟨hregion, hmatch, hnew⟩
    · exact .inl hsame
    · obtain ⟨d', hd', heq, -, hfrees⟩ := hsafe.2 _ hregion
      obtain rfl := dirRegion_inj hg (h.area d hd) hd' heq hj
      exact .inr ⟨hfrees hd, hmatch, hnew⟩
  have hlive : ∀ d i, DirIn e.geom v d → (dirRegion e.geom d).Live v'.disk i →
      (dirRegion e.geom d).Live v.disk i := by
    rintro d i hd ⟨hlt, hend, hdel⟩
    refine ⟨hlt, fun j hj => ?_, ?_⟩
    · rcases hslot d j hd (by omega) with hsame | ⟨hfrees, hmatch, -⟩
      · exact (congrArg Raw.isEnd hsame).symm.trans (hend j hj)
      · exact (isEnd_of_matches hmatch.2 hfrees.old.1 hfrees.old.2).1
    · rcases hslot d i hd hlt with hsame | ⟨hfrees, hmatch, -⟩
      · exact (congrArg Raw.isDeleted hsame).symm.trans hdel
      · exact (isEnd_of_matches hmatch.2 hfrees.old.1 hfrees.old.2).2
  refine h.step (fun _ => False) (fun d hd => uniqueIn_iff.mpr fun i j hi hj hkey => ?_)
    (fun d i hd hi hdir hdots => ?_)
    fun _ hf => hf.elim
  · have hi' := hlive d i hd hi
    have hj' := hlive d j hd hj
    have hboth : Matches v (dirRegion e.geom d) path i → Matches v (dirRegion e.geom d) path j →
        i = j := fun hmi hmj =>
      h.unique d hd i j _ _ hi' hj' hmi.2 hmj.2
    rcases hslot d i hd hi.1 with hsi | ⟨hfrees, hmi, hni⟩
    · rcases hslot d j hd hj.1 with hsj | ⟨hfrees, hmj, hnj⟩
      · rw [hsi, hsj] at hkey
        exact uniqueIn_iff.mp (h.unique d hd) i j hi' hj' hkey
      · by_contra hne
        rw [hsi, hnj, key_renamed] at hkey
        exact hfrees.fresh i hi' (fun hmi => hne (hboth hmi hmj)) hkey
    · rcases hslot d j hd hj.1 with hsj | ⟨-, hmj, -⟩
      · by_contra hne
        rw [hsj, hni, key_renamed] at hkey
        exact hfrees.fresh j hj' (fun hmj => hne (hboth hmi hmj)) hkey.symm
      · exact hboth hmi hmj
  · rcases hslot d i hd hi.1 with hsame | ⟨-, -, hnew⟩
    · rw [hsame] at hdir hdots ⊢
      exact .inl (hd.sub (hlive d i hd hi) hdir hdots)
    · rw [hnew, not_isDir_renamed] at hdir
      exact absurd hdir Bool.false_ne_true

/-! ### Creation -/

/-- Names stay unique if entries are added at end marks, under names that the directories take. -/
theorem UniqueNames.create (h : UniqueNames g v) (New : ℕ → Prop)
    (hslot : ∀ d j, DirIn g v d → j < (dirRegion g d).entries → entryIn g v' d j = entryIn g v d j ∨
      ∃ dir, TakesName g v d dir ∧
        placeFrom ((dirRegion g d).buf v.disk) dir (dirRegion g d).entries 0 = .free j ∧
        entryIn g v' d j = dir ∧ (dir.isDir = true → New dir.firstClusterNo))
    (hnew : ∀ f, New f → fatValidCluster g f = true ∧ UniqueIn g v' f ∧
      ∀ i, (dirRegion g f).Live v'.disk i → isDots (entryIn g v' f i) = true) :
        UniqueNames g v' := by
  have hplace : ∀ {d j : ℕ} {dir : Raw},
        placeFrom ((dirRegion g d).buf v.disk) dir (dirRegion g d).entries 0 = .free j →
      (entryIn g v d j).isEnd = true ∧ ∀ k < j, (entryIn g v d k).isEnd = false := fun hp => by
    obtain ⟨-, -, hbefore, hend⟩ := placeFrom_spec _ hp
    exact ⟨hend, fun k hk => (hbefore k (Nat.zero_le k) hk).2⟩
  -- an entry in use with the name would have been found before the end mark
  have hfresh : ∀ {d j : ℕ} {dir : Raw}, TakesName g v d dir →
      placeFrom ((dirRegion g d).buf v.disk) dir (dirRegion g d).entries 0 = .free j →
      ∀ i, (dirRegion g d).Live v.disk i → (entryIn g v d i).key ≠ dir.key := by
    intro d j dir htakes hp i hi hkey
    obtain ⟨-, -, hbefore, hend⟩ := placeFrom_spec _ hp
    have hlt : i < j := by
      by_contra hge
      exact Bool.false_ne_true ((hi.2.1 j (not_lt.mp hge)).symm.trans hend)
    exact Bool.false_ne_true ((hbefore i (Nat.zero_le i) hlt).1.symm.trans (htakes.seen i hi hkey))
  -- an entry in use that was not added was in use before
  have hlive : ∀ d i, DirIn g v d → (dirRegion g d).Live v'.disk i →
        entryIn g v' d i = entryIn g v d i →
      (dirRegion g d).Live v.disk i := by
    rintro d i hd ⟨hlt, hend, hdel⟩ hsame
    refine ⟨hlt, fun k hk => ?_, (congrArg Raw.isDeleted hsame).symm.trans hdel⟩
    rcases hslot d k hd (by omega) with hkept | ⟨dir, htakes, hp, -, -⟩
    · exact (congrArg Raw.isEnd hkept).symm.trans (hend k hk)
    · obtain ⟨hmark, hbefore⟩ := hplace hp
      rcases Nat.eq_or_lt_of_le hk with rfl | hki
      · exact (congrArg Raw.isEnd hsame).symm.trans (hend k (le_refl k))
      · have hnext := htakes.mark k hbefore hmark (by omega)
        rcases hslot d (k + 1) hd (by omega) with hkept | ⟨dir', -, hp', -, -⟩
        · have hafter : (entryIn g v' d (k + 1)).isEnd = false := hend (k + 1) hki
          rw [hkept, hnext] at hafter
          exact absurd hafter.symm Bool.false_ne_true
        · exact absurd (((hplace hp').2 k (Nat.lt_succ_self k)).symm.trans hmark) Bool.false_ne_true
  refine h.step New (fun d hd => uniqueIn_iff.mpr fun i j hi hj hkey => ?_)
    (fun d i hd hi hdir hdots => ?_) hnew
  · rcases hslot d i hd hi.1 with hsi | ⟨dir, htakes, hpi, hni, -⟩
    · rcases hslot d j hd hj.1 with hsj | ⟨dir, htakes, hpj, hnj, -⟩
      · have hi' := hlive d i hd hi hsi
        have hj' := hlive d j hd hj hsj
        rw [hsi, hsj] at hkey
        exact uniqueIn_iff.mp (h.unique d hd) i j hi' hj' hkey
      · have hi' := hlive d i hd hi hsi
        rw [hsi, hnj] at hkey
        exact absurd hkey (hfresh htakes hpj i hi')
    · rcases hslot d j hd hj.1 with hsj | ⟨dir', -, hpj, -, -⟩
      · have hj' := hlive d j hd hj hsj
        rw [hsj, hni] at hkey
        exact absurd hkey.symm (hfresh htakes hpi j hj')
      · -- both are at the first end mark
        rcases Nat.lt_trichotomy i j with hlt | heq | hlt
        · exact absurd (((hplace hpj).2 i hlt).symm.trans (hplace hpi).1) Bool.false_ne_true
        · exact heq
        · exact absurd (((hplace hpi).2 j hlt).symm.trans (hplace hpj).1) Bool.false_ne_true
  · rcases hslot d i hd hi.1 with hsame | ⟨dir, -, -, hentry, hdirNew⟩
    · have hi' := hlive d i hd hi hsame
      rw [hsame] at hdir hdots ⊢
      exact .inl (hd.sub hi' hdir hdots)
    · rw [hentry] at hdir ⊢
      exact .inr (hdirNew hdir)

theorem stored_newEntry (filename : ℕ → UInt8) (a : UInt8) (f : ℕ) :
    (newEntry filename a f).stored = newEntry filename a f := by
  funext k
  unfold Raw.stored
  split_ifs with hk
  · rfl
  · exact (newEntry_zero filename a f k (by omega)).symm

theorem fatNewFile_entries (hg : e.geom.Ok)
    (hparent : ∀ region, createRegion e v path = some region →
      ∃ d, e.geom.IsArea d ∧ region = dirRegion e.geom d) (d' j : ℕ)
    (hd' : e.geom.IsArea d') (hj : j < (dirRegion e.geom d').entries) :
    entryIn e.geom (v.fatNewFile e path).1 d' j = entryIn e.geom v d' j ∨
      ∃ f, createRegion e v path = some (dirRegion e.geom d') ∧
        placeFrom ((dirRegion e.geom d').buf v.disk) (fileEntry (splitParent path).2 f)
          (dirRegion e.geom d').entries 0 = .free j ∧
        entryIn e.geom (v.fatNewFile e path).1 d' j = fileEntry (splitParent path).2 f := by
  unfold createRegion at hparent ⊢
  unfold fatNewFile
  dsimp only
  have hread := fatParsePath_onlyRead e v (splitParent path).1 true
  generalize v.fatParsePath e (splitParent path).1 true = p at hparent hread ⊢
  have hkept : ∀ {w : Vol}, SameEntries e.geom p.1 w →
      entryIn e.geom w d' j = entryIn e.geom v d' j := fun hw =>
    (hw d' j hd').trans (SameEntries.of_disk hread.disk d' j hd')
  split_ifs
  · exact .inl rfl
  cases hregion : parentRegion e.geom (decide ((splitParent path).1 = [slash])) p.2 with
  | none => exact .inl (hkept (.of_disk rfl))
  | some region =>
    obtain ⟨d, hd, rfl⟩ := hparent region hregion
    dsimp only
    cases p.1.findFree e.geom 2 with
    | none => exact .inl (hkept (.of_disk rfl))
    | some f =>
      have hentry : newEntry (paddedName (strsplit (strtoupper (splitParent path).2) dot).1
        (strsplit (strtoupper (splitParent path).2) dot).2.1) 0x20 f =
          fileEntry (splitParent path).2 f := rfl
      unfold ataReadExact
      dsimp only
      cases e.io p.1.clock with
      | some k =>
        rw [if_neg (Option.some_ne_none k)]
        exact .inl (hkept (.of_disk rfl))
      | none =>
        rw [if_pos rfl, hentry]
        dsimp only
        have hbuf : (fun k => p.1.disk ((dirRegion e.geom d).addr + k)) =
            (dirRegion e.geom d).buf p.1.tick.disk := rfl
        rw [hbuf]
        have hdisk : p.1.tick.disk = v.disk := hread.disk
        cases hplace :
          placeFrom ((dirRegion e.geom d).buf p.1.tick.disk) (fileEntry (splitParent path).2 f)
            (dirRegion e.geom d).entries 0 with
        | taken => exact .inl (hkept (.of_disk rfl))
        | full =>
          dsimp only
          split_ifs
          · exact .inl (hkept (.release hg p.1.tick f))
          · exact .inl (hkept (.of_disk rfl))
        | free i =>
          dsimp only
          have hstore :=
            storeEntry_entries hg hd p.1.tick i (fileEntry (splitParent path).2 f) d' j hd' hj
          generalize p.1.tick.storeEntry e (dirRegion e.geom d)
            ((dirRegion e.geom d).buf p.1.tick.disk) i
            (fileEntry (splitParent path).2 f) = w at hstore ⊢
          -- what comes after the entry is stored changes no entry
          have hafter : ∀ {u : Vol}, SameEntries e.geom w.1 u →
                entryIn e.geom u d' j = entryIn e.geom v d' j ∨
              ∃ f, some (dirRegion e.geom d) = some (dirRegion e.geom d') ∧
                placeFrom ((dirRegion e.geom d').buf v.disk) (fileEntry (splitParent path).2 f)
                  (dirRegion e.geom d').entries 0 =
                  .free j ∧ entryIn e.geom u d' j = fileEntry (splitParent path).2 f := by
            intro u hu
            rcases hstore with hsame | ⟨rfl, rfl, hnew⟩
            · exact .inl ((hu d' j hd').trans (hsame.trans (hkept (.of_disk rfl))))
            · refine .inr ⟨f, rfl, hdisk ▸ hplace,
                (hu d' j hd').trans (hnew.trans (stored_newEntry _ _ f))⟩
          have hclaim :
              SameEntries e.geom w.1 (if w.2 = true then w.1.claimCluster e f else w).1 := by
            split_ifs
            · exact fun d k hd => claimCluster_entry hg hd f
            · exact .of_disk rfl
          generalize (if w.2 = true then w.1.claimCluster e f else w) = c at hclaim ⊢
          split_ifs
          · exact hafter hclaim
          · exact hafter (hclaim.trans (.release hg c.1 f))
          · exact hafter hclaim

/-- Directory `f` is as `fat_new_dir` makes it. -/
def IsNewDir (g : Geom) (v : Vol) (f : ℕ) : Prop :=
  fatValidCluster g f = true ∧ ∃ parent, ∀ k < (dirRegion g f).entries,
    entryIn g v f k = entryAt (newDirBuf f parent) k

/-- What `linkDir` makes of the entries: one may be added at the end mark. -/
theorem linkDir_entries (hg : e.geom.Ok) (hd : e.geom.IsArea d) (v : Vol) (filename : ℕ → UInt8)
    (a : UInt8) (f d' j : ℕ) (hd' : e.geom.IsArea d') (hj : j < (dirRegion e.geom d').entries) :
    entryIn e.geom (v.linkDir e (dirRegion e.geom d) (newEntry filename a f) f).1 d' j =
      entryIn e.geom v d' j ∨
      d' = d ∧ placeFrom ((dirRegion e.geom d).buf v.disk) (newEntry filename a f)
        (dirRegion e.geom d).entries 0 = .free j ∧
        entryIn e.geom (v.linkDir e (dirRegion e.geom d) (newEntry filename a f) f).1 d' j =
        newEntry filename a f := by
  unfold linkDir ataReadExact
  dsimp only
  cases e.io v.clock with
  | some k =>
    rw [if_neg (Option.some_ne_none k)]
    exact .inl rfl
  | none =>
    rw [if_pos rfl]
    dsimp only
    have hbuf : (fun k => v.disk ((dirRegion e.geom d).addr + k)) =
        (dirRegion e.geom d).buf v.tick.disk := rfl
    rw [hbuf]
    cases hplace : placeFrom ((dirRegion e.geom d).buf v.tick.disk) (newEntry filename a f)
      (dirRegion e.geom d).entries 0 with
    | taken => exact .inl rfl
    | full => exact .inl rfl
    | free i =>
      dsimp only
      have hstore := storeEntry_entries hg hd v.tick i (newEntry filename a f) d' j hd' hj
      rw [stored_newEntry] at hstore
      generalize v.tick.storeEntry e (dirRegion e.geom d) ((dirRegion e.geom d).buf v.tick.disk) i
        (newEntry filename a f) = w
        at hstore ⊢
      have hflush :
          SameEntries e.geom w.1 (if w.2 = true then w.1.fatTableFlushCache e f f else w).1 := by
        split_ifs
        · exact .of_flush hg w.1 f f
        · exact .of_disk rfl
      rw [hflush d' j hd']
      rcases hstore with hsame | ⟨rfl, rfl, hnew⟩
      · exact .inl hsame
      · exact .inr ⟨rfl, hplace, hnew⟩

theorem fatNewDir_entries (hg : e.geom.Ok)
    (hparent : ∀ region, createRegion e v path = some region →
      ∃ d, e.geom.IsArea d ∧ region = dirRegion e.geom d) (d' j : ℕ)
    (hd' : e.geom.IsArea d') (hj : j < (dirRegion e.geom d').entries)
    (hfree : ∀ f, v.findFree e.geom 2 = some f → d' ≠ f) :
    entryIn e.geom (v.fatNewDir e path).1 d' j = entryIn e.geom v d' j ∨
      ∃ f, createRegion e v path = some (dirRegion e.geom d') ∧
        placeFrom ((dirRegion e.geom d').buf v.disk)
          (subdirEntry (newDirJunk e v path) (splitParent path).2 f)
          (dirRegion e.geom d').entries 0 = .free j ∧
        entryIn e.geom (v.fatNewDir e path).1 d' j =
          subdirEntry (newDirJunk e v path) (splitParent path).2 f ∧
        IsNewDir e.geom (v.fatNewDir e path).1 f := by
  have hjunk : newDirJunk e v path = e.junk
      (if decide ((splitParent path).1 = [slash]) = true then (v, none)
        else v.fatParsePath e (splitParent path).1 true).1.clock := by
    unfold newDirJunk
    simp only [decide_eq_true_eq]
    split_ifs <;> rfl
  rw [hjunk]
  unfold createRegion at hparent ⊢
  unfold fatNewDir
  dsimp only
  rw [length_strtoupper]
  by_cases hlen : 8 < (splitParent path).2.length
  · rw [if_pos hlen]
    exact .inl rfl
  rw [if_neg hlen]
  generalize hin : decide ((splitParent path).1 = [slash]) = inroot at hparent ⊢
  have hsame : parentRegion e.geom inroot
        (if inroot = true then (v, none) else v.fatParsePath e (splitParent path).1 true).2 =
      parentRegion e.geom inroot (v.fatParsePath e (splitParent path).1 true).2 := by
    unfold parentRegion
    split_ifs <;> rfl
  have hread : OnlyRead v (if inroot = true then (v, none)
      else v.fatParsePath e (splitParent path).1 true).1 := by
    split_ifs
    · exact .refl v
    · exact fatParsePath_onlyRead e v _ true
  rw [← hsame] at hparent ⊢
  generalize (if inroot = true then (v, none) else v.fatParsePath e (splitParent path).1 true) = p
    at hparent hread ⊢
  have hkept : ∀ {w : Vol}, SameEntries e.geom p.1 w →
      entryIn e.geom w d' j = entryIn e.geom v d' j := fun hw =>
    (hw d' j hd').trans (SameEntries.of_disk hread.disk d' j hd')
  cases hregion : parentRegion e.geom inroot p.2 with
  | none => exact .inl (hkept (.of_disk rfl))
  | some region =>
    obtain ⟨d, hd, rfl⟩ := hparent region hregion
    dsimp only
    cases hfound : p.1.findFree e.geom 2 with
    | none => exact .inl (hkept (.of_disk rfl))
    | some f =>
      obtain ⟨hf2, hfn, -⟩ := findFree_spec hg.clusters hfound
      have hvalid : fatValidCluster e.geom f = true :=
        (fatValidCluster_iff hg.clusters).mpr ⟨hf2, hfn⟩
      have hne : d' ≠ f := hfree f (by
        unfold findFree at hfound ⊢
        rwa [hread.table] at hfound)
      dsimp only
      rw [update_valid hvalid]
      dsimp only
      rw [if_neg (by decide)]
      generalize hbuf : newDirBuf f _ = newBuf
      obtain ⟨parent, rfl⟩ : ∃ parent, newBuf = newDirBuf f parent := ⟨_, hbuf.symm⟩
      generalize hu : Vol.mk p.1.disk (Function.update p.1.table f 65535)
        (Function.update p.1.dirty f true) p.1.clock = u
      have hdisk : u.disk = v.disk := by
        rw [← hu]
        exact hread.disk
      obtain ⟨n, hn, hwritten⟩ := write_entries hg (.inr hvalid) u (newDirBuf f parent)
      rw [hg.dirRegion_cluster hvalid] at hn hwritten
      change _ → (e.geom.clusterRegion f).entries ≤ n at hn
      generalize hw :
        u.ataWriteExact e (e.geom.clusterAddr f) (newDirBuf f parent) e.geom.clusterSize = w
      change (u.ataWriteExact e (e.geom.clusterAddr f) (newDirBuf f parent) e.geom.clusterSize).2 =
        true → _ at hn
      change ∀ d' j, _ → _ → entryIn e.geom
        (u.ataWriteExact e (e.geom.clusterAddr f) (newDirBuf f parent) e.geom.clusterSize).1 d' j =
        _
        at hwritten
      rw [hw] at hn hwritten
      -- the new directory is written to the free cluster, and to no other
      have hother : ∀ d' j, e.geom.IsArea d' → d' ≠ f → j < (dirRegion e.geom d').entries →
          entryIn e.geom w.1 d' j = entryIn e.geom v d' j := by
        intro d' j hd' hne hj
        rw [hwritten d' j hd' hj, if_neg fun h => hne h.1]
        exact SameEntries.of_disk hdisk d' j hd'
      cases hok : w.2 with
      | false =>
        rw [if_pos (by decide)]
        exact .inl
          ((SameEntries.of_disk (fatTableUpdateCluster_clock e.geom w.1 f 0).2 d' j hd').trans
            (hother d' j hd' hne hj))
      | true =>
        rw [if_neg (by decide)]
        have hlink := linkDir_entries hg hd w.1
          (dirName (e.junk p.1.clock) (strtoupper (splitParent path).2)) 0x10 f
        generalize w.1.linkDir e (dirRegion e.geom d) _ f = l at hlink ⊢
        have hrelease : SameEntries e.geom l.1
            (if l.2 = true then l else (l.1.releaseCluster e f, false)).1 := by
          split_ifs
          · exact .of_disk rfl
          · exact .release hg l.1 f
        generalize (if l.2 = true then l else (l.1.releaseCluster e f, false)) = r at hrelease ⊢
        rcases hlink d' j hd' hj with hsame | ⟨rfl, hplace, hnew⟩
        · exact .inl ((hrelease d' j hd').trans (hsame.trans (hother d' j hd' hne hj)))
        · refine .inr ⟨f, rfl, ?_, (hrelease d' j hd').trans hnew, hvalid, parent, fun k hk => ?_⟩
          · rw [← hplace]
            exact (placeFrom_congr _ fun k _ hk => hother d' k hd' hne (by omega)).symm
          · have harea : e.geom.IsArea f := .inr hvalid
            have hlt : k < n := by
              have hentries := hn hok
              rw [← hg.dirRegion_cluster hvalid] at hentries
              exact lt_of_lt_of_le hk hentries
            rw [hrelease f k harea]
            rcases hlink f k harea hk with hsame | ⟨heq, -⟩
            · rw [hsame, hwritten f k harea hk, if_pos ⟨rfl, hlt⟩]
            · exact absurd heq.symm hne

/-- A new directory has two entries in use, `.` and `..`. -/
theorem IsNewDir.live (h : IsNewDir g v f) (hlive : (dirRegion g f).Live v.disk i) :
    ∃ parent, entryIn g v f i = entryAt (newDirBuf f parent) i ∧ i < 2 := by
  obtain ⟨-, parent, hentries⟩ := h
  refine ⟨parent, hentries i hlive.1, ?_⟩
  by_contra hge
  have hend : (entryIn g v f 2).isEnd = false := hlive.2.1 2 (by omega)
  have hlt := hlive.1
  rw [hentries 2 (by omega)] at hend
  exact Bool.noConfusion hend

theorem IsNewDir.isDots (h : IsNewDir g v f) (hlive : (dirRegion g f).Live v.disk i) :
    isDots (entryIn g v f i) = true := by
  obtain ⟨parent, hentry, hi⟩ := h.live hlive
  rw [hentry]
  interval_cases i <;> rfl

theorem IsNewDir.uniqueIn (h : IsNewDir g v f) : UniqueIn g v f := by
  refine uniqueIn_iff.mpr fun i j hi hj hkey => ?_
  obtain ⟨parent, hentry, hi2⟩ := h.live hi
  obtain ⟨parent', hentry', hj2⟩ := h.live hj
  rw [hentry, hentry'] at hkey
  have hlen := congrArg (fun key => key.1.length) hkey
  have hone : ∀ parent, (entryAt (newDirBuf f parent) 0).key.1.length = 1 := fun _ => rfl
  have htwo : ∀ parent, (entryAt (newDirBuf f parent) 1).key.1.length = 2 := fun _ => rfl
  interval_cases i <;> interval_cases j
  · rfl
  · exact absurd ((hone parent).symm.trans (hlen.trans (htwo parent'))) (by decide)
  · exact absurd ((htwo parent).symm.trans (hlen.trans (hone parent'))) (by decide)
  · rfl

theorem UniqueNames.newFile (hg : e.geom.Ok) (h : UniqueNames e.geom v)
    (hsafe : (NameCall.newFile path).Safe e v) :
    UniqueNames e.geom (v.fatNewFile e path).1 := by
  obtain ⟨hfits, htakes⟩ := hsafe
  have hparent : ∀ region, createRegion e v path = some region →
      ∃ d, e.geom.IsArea d ∧ region = dirRegion e.geom d := by
    intro region hregion
    obtain ⟨d, hd, heq, -⟩ := htakes region hregion
    exact ⟨d, hd, heq⟩
  refine h.create (fun _ => False) (fun d j hd hj => ?_) fun _ hf => hf.elim
  rcases fatNewFile_entries hg hparent d j (h.area d hd) hj with hsame | ⟨f, hregion, hplace, hnew⟩
  · exact .inl hsame
  · obtain ⟨d', hd', heq, hfor⟩ := htakes _ hregion
    obtain rfl := dirRegion_inj hg (h.area d hd) hd' heq hj
    obtain ⟨hseen, hmark⟩ := hfor hd
    refine .inr ⟨fileEntry (splitParent path).2 f, ⟨hseen, hmark⟩, hplace, hnew, fun hdir => ?_⟩
    change (0x20 &&& 0x10 != (0 : UInt8)) = true at hdir
    exact absurd hdir (by decide)

theorem UniqueNames.newDir (hg : e.geom.Ok) (h : UniqueNames e.geom v)
    (hsafe : (NameCall.newDir path).Safe e v) :
    UniqueNames e.geom (v.fatNewDir e path).1 := by
  obtain ⟨htakes, hfree⟩ := hsafe
  have hparent : ∀ region, createRegion e v path = some region →
      ∃ d, e.geom.IsArea d ∧ region = dirRegion e.geom d := by
    intro region hregion
    obtain ⟨d, hd, heq, -⟩ := htakes region hregion
    exact ⟨d, hd, heq⟩
  refine h.create (IsNewDir e.geom (v.fatNewDir e path).1) (fun d j hd hj => ?_) fun f hf =>
    ⟨hf.1, hf.uniqueIn, fun i hlive => hf.isDots hlive⟩
  rcases fatNewDir_entries hg hparent d j (h.area d hd) hj fun f hf heq =>
    hfree f hf (heq ▸ hd) with
    hsame | ⟨f, hregion, hplace, hnew, hmade⟩
  · exact .inl hsame
  · obtain ⟨d', hd', heq, hfor⟩ := htakes _ hregion
    obtain rfl := dirRegion_inj hg (h.area d hd) hd' heq hj
    have hsmall : f < 2 ^ 16 := by
      have := (valid_lt hmade.1).2
      have := hg.clusters
      omega
    obtain ⟨hseen, hmark⟩ := hfor hd
    refine .inr ⟨subdirEntry (newDirJunk e v path) (splitParent path).2 f, ⟨hseen, hmark⟩, hplace,
      hnew, fun _ => ?_⟩
    unfold subdirEntry
    rw [firstClusterNo_newEntry _ _ hsmall]
    exact hmade

/-! ### Runs -/

theorem UniqueNames.exec (hg : e.geom.Ok) (h : UniqueNames e.geom v) {call : NameCall}
    (hsafe : call.Safe e v) :
    UniqueNames e.geom (call.exec e v).1 := by
  cases call with
  | newFile path => exact h.newFile hg hsafe
  | newDir path => exact h.newDir hg hsafe
  | rename path filename => exact h.rename hg hsafe
  | deleteFile path => exact h.onlyDeletes (fatDeleteFile_onlyDeletes hg hsafe)
  | deleteDir path => exact h.onlyDeletes (fatDeleteDir_onlyDeletes hg hsafe)

end X86Kernel.Fat
