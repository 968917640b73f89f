import X86Kernel.Fat.NewEntry
import X86Kernel.Fat.EntryAt

/-! The volume over any run of the calls that change it. -/
namespace X86Kernel.Fat

open Vol

variable {g : Geom} {v v' : Vol} {e : Env} {chain : List ℕ} {d i f : ℕ} {c q : Str} {cs : List Str}

/-- A component that can name a new entry. -/
structure Name83 (c : Str) : Prop extends Proper c where
  noZero : 0 ∉ c
  first : c.head? ≠ some 0xE5 ∧ c.head? ≠ some dot

/-- The calls that change the volume; the buffers of the tasks are good. -/
inductive VolumeCall where
  | newFile (path : Str)
  | newDir (path : Str)
  | write (path : Str) (buffer : Buf) (offset size : ℕ)
  | resize (path : Str) (size : ℕ)
  | deleteFile (path : Str)
  | deleteDir (path : Str)

namespace VolumeCall

def path : VolumeCall → Str
  | newFile path => path
  | newDir path => path
  | write path _ _ _ => path
  | resize path _ => path
  | deleteFile path => path
  | deleteDir path => path

/-- A call that answers true or false gives 0 or -1. -/
def exec (e : Env) (v : Vol) : VolumeCall → Vol × ℤ
  | newFile path => let r := v.fatNewFile e path; (r.1, if r.2 then 0 else -1)
  | newDir path => let r := v.fatNewDir e path; (r.1, if r.2 then 0 else -1)
  | write path buffer offset size => v.fatWriteFileAt e path buffer offset size fun _ _ => true
  | resize path size => v.fatResizeFile e path size
  | deleteFile path => let r := v.fatDeleteFile e path; (r.1, if r.2 then 0 else -1)
  | deleteDir path => let r := v.fatDeleteDir e path; (r.1, if r.2 then 0 else -1)

/-- What the entry must be that the path leads to, if there is one, and how far a file may reach. -/
def Fits (g : Geom) (entry : Option Raw) : VolumeCall → Prop
  | newFile _ => True
  | newDir _ => True
  | write _ _ offset size =>
    offset + size ≤ 2 ^ 32 - g.clusterSize ∧ ∀ dir ∈ entry, dir.isDir = false
  | resize _ size => size ≤ 2 ^ 32 - g.clusterSize ∧ ∀ dir ∈ entry, dir.isDir = false
  | deleteFile _ => ∀ dir ∈ entry, dir.isDir = false
  | deleteDir _ => True

/-- The path is canonical: it goes through directories that exist. -/
def Allowed (g : Geom) (v : Vol) (call : VolumeCall) : Prop :=
  ∃ cs c d, call.path = pathOf (cs ++ [c]) ∧ (∀ c' ∈ cs, Proper c') ∧ Name83 c ∧
    dirAt g v 0 cs = some d ∧
    call.Fits g ((lookup g v d c).map (entryIn g v d))

/-- A write of nothing does not begin a cluster behind those of the file, and the name of an empty
directory to delete finds, without its extension, no other entry. -/
def Safe (g : Geom) (v : Vol) : VolumeCall → Prop
  | write path _ offset size => 0 < size ∨ ∀ d i, EntryAt g v path d i →
      offset ≤ g.fileClusters (entryIn g v d i).fileSize * g.clusterSize ∨
      offset % g.clusterSize ≠ 0
  | deleteDir path => ∀ d i, EntryAt g v path d i → (entryIn g v d i).isDir = true →
      EmptyDir g v (entryIn g v d i).firstClusterNo → ∀ j,
        scanFrom ((dirRegion g d).buf v.disk) (entryIn g v d i).name [] (dirRegion g d).entries 0 =
          some j → j = i
  | _ => True

end VolumeCall

/-! ### The new entries -/

theorem getD_upper_ne {s : Str} {t : UInt8} (ht : t ≠ dot) (hs : s.head? ≠ some dot) :
    (strtoupper s).getD 0 t ≠ dot := by
  cases s with
  | nil => exact ht
  | cons b s =>
    change toupper b ≠ dot
    rw [Ne, toupper_eq_iff (by decide) (by decide)]
    exact fun hb => hs (congrArg some hb)

theorem isDots_of_first {dir : Raw} (h : dir 0 ≠ dot) : isDots dir = false := by
  unfold isDots
  rw [beq_eq_false_iff_ne.mpr h]
  rfl

theorem isDots_fileEntry (hfirst : q.head? ≠ some dot) (f : ℕ) :
    isDots (fileEntry q f) = false := by
  apply isDots_of_first
  rw [fileEntry_zero]
  refine getD_upper_ne (by decide) ?_
  by_cases hdot : dot ∈ q
  · cases hs : (strsplit q dot).1 with
    | nil => exact (Option.some_ne_none _).symm
    | cons b n =>
      rw [split_of_dot hdot, hs] at hfirst
      exact hfirst
  · rw [split_of_noDot hdot]
    exact hfirst

theorem isDots_subdirEntry (junk : ℕ → UInt8) (hfirst : q.head? ≠ some dot) (f : ℕ) :
    isDots (subdirEntry junk q f) = false := by
  apply isDots_of_first
  rw [subdirEntry_zero]
  exact getD_upper_ne (by decide) hfirst

theorem isDir_fileEntry (q : Str) (f : ℕ) : (fileEntry q f).isDir = false := by
  have hattributes : (fileEntry q f).attributes = 0x20 := rfl
  unfold Raw.isDir
  rw [hattributes]
  rfl

theorem isDir_subdirEntry (junk : ℕ → UInt8) (q : Str) (f : ℕ) :
    (subdirEntry junk q f).isDir = true := by
  have hattributes : (subdirEntry junk q f).attributes = 0x10 := rfl
  unfold Raw.isDir
  rw [hattributes]
  rfl

/-! ### One call -/

theorem GoodVolume.whole (h : GoodVolume g v) (hd : g.IsArea d) : 512 ∣ (dirRegion g d).size := by
  rcases hd with rfl | hvalid
  · exact h.root
  · rw [h.geom.dirRegion_cluster hvalid]
    change 512 ∣ g.clusterSize
    unfold Geom.clusterSize
    rw [h.sectors.1]
    exact dvd_mul_left 512 _

section Step

variable (h : GoodVolume e.geom v) (hio : ∀ n, e.io n = none) (hcs : ∀ c' ∈ cs, Proper c')
  (hc : Name83 c)
  (hdir : dirAt e.geom v 0 cs = some d)

include h hio hcs hc hdir

/-- What a canonical path leads to. -/
theorem parse_pathOf : (v.fatParsePath e (pathOf (cs ++ [c])) true).2 =
    (lookup e.geom v d c).map (entryIn e.geom v d) := by
  obtain ⟨hwalk, cur, hparse, rfl⟩ := walk_pathOf h.volume h.geom hio hcs hdir
  have hread := (parseElements_onlyRead e (components (pathOf cs)) none v).disk
  have hin : InDir e.geom v [] cur := by
    have := hwalk.ends h.geom hio List.not_mem_nil _ (u := v) rfl
    rwa [hparse] at this
  have hfindIn : findIn e.geom v cur c = lookup e.geom v (dirOf cur) c :=
    if_neg fun hdots => hc.notDots hdots.1
  rw [fatParsePath_true, pathOf_snoc, components_append hc.noSlash]
  unfold walkEnd
  rw [parseElements_snoc]
  unfold finish
  rw [hparse]
  dsimp only
  rw [follow_disk hio hread, follow_find hio hin.ne_zero hc.notSkipped hc.length, hfindIn]
  cases lookup e.geom v (dirOf cur) c <;> rfl

omit h hio in
theorem entryAt_pathOf (hfind : lookup e.geom v d c = some i) :
    EntryAt e.geom v (pathOf (cs ++ [c])) d i :=
  ⟨cs, c, rfl, hcs, hc.toProper, hdir, hfind⟩

theorem VolumeOk.newFile : VolumeOk e.geom (v.fatNewFile e (pathOf (cs ++ [c]))).1 := by
  have hg := h.geom
  obtain ⟨hwalk, -⟩ := walk_pathOf h.volume hg hio hcs hdir
  have hparent := parentDir_pathOf h.volume hg hio hcs hc.toProper hdir
  have hin := dirAt_dirIn hcs (dirIn_root _ _) hdir
  rw [pathOf_snoc] at hparent ⊢
  cases hok : (v.fatNewFile e (pathOf cs ++ slash :: c)).2 with
  | false =>
    obtain ⟨hdisk, htable⟩ := fatNewFile_failed hg hio hc.noSlash hwalk (fun d hd => h.whole hd) hok
    exact h.volume.kept (fun d j hd _ _ => SameEntries.of_disk hdisk d j hd) htable
  | true =>
    obtain ⟨-, d', i, f, hparent', hcreated, htable⟩ :=
      fatNewFile_created hg hio hc.noSlash hwalk hok
    obtain rfl := Option.some.inj (hparent.symm.trans hparent')
    have hsmall : f < 2 ^ 16 := by
      have := (valid_lt hcreated.valid).2
      have := hg.clusters
      omega
    exact h.volume.installed hg hin { hcreated with
      table := htable
      notEnd := isEnd_fileEntry hc.noZero f
      notDeleted := (isDeleted_fileEntry c f).mpr hc.first.1
      notDots := isDots_fileEntry hc.first.2 f
      first := firstClusterNo_newEntry _ _ hsmall
      size := fun _ => rfl
      content := fun hdir => Bool.noConfusion ((isDir_fileEntry c f).symm.trans hdir) }

theorem VolumeOk.newDir : VolumeOk e.geom (v.fatNewDir e (pathOf (cs ++ [c]))).1 := by
  have hg := h.geom
  obtain ⟨hwalk, -⟩ := walk_pathOf h.volume hg hio hcs hdir
  have hparent := parentDir_pathOf h.volume hg hio hcs hc.toProper hdir
  have hin := dirAt_dirIn hcs (dirIn_root _ _) hdir
  rw [pathOf_snoc] at hparent ⊢
  cases hok : (v.fatNewDir e (pathOf cs ++ slash :: c)).2 with
  | false =>
    obtain ⟨hentries, htable⟩ :=
      fatNewDir_failed hg hio hc.noSlash hwalk (fun d hd => h.whole hd) hok
    exact h.volume.kept hentries htable
  | true =>
    obtain ⟨-, d', i, f, junk, hparent', hcreated, htable, hcontent⟩ :=
      fatNewDir_created hg hio hc.noSlash hwalk hok
    obtain rfl := Option.some.inj (hparent.symm.trans hparent')
    have hsmall : f < 2 ^ 16 := by
      have := (valid_lt hcreated.valid).2
      have := hg.clusters
      omega
    have hne : c ≠ [] := by
      intro hnil
      have hproper := hc.notSkipped
      rw [hnil] at hproper
      exact Bool.noConfusion hproper
    exact h.volume.installed hg hin { hcreated with
      table := htable
      notEnd := isEnd_subdirEntry hc.noZero hne junk f
      notDeleted := (isDeleted_subdirEntry junk c f).mpr hc.first.1
      notDots := isDots_subdirEntry junk hc.first.2 f
      first := firstClusterNo_newEntry _ _ hsmall
      size := fun hplain => Bool.noConfusion ((isDir_subdirEntry junk c f).symm.trans hplain)
      content := fun _ => hcontent }

theorem VolumeOk.write (buffer : Buf) {offset size : ℕ}
    (hmax : offset + size ≤ 2 ^ 32 - e.geom.clusterSize)
    (hplain : ∀ dir ∈ (lookup e.geom v d c).map (entryIn e.geom v d), dir.isDir = false)
    (hsafe : (VolumeCall.write (pathOf (cs ++ [c])) buffer offset size).Safe e.geom v) :
    VolumeOk e.geom
      (v.fatWriteFileAt e (pathOf (cs ++ [c])) buffer offset size fun _ _ => true).1 := by
  have hg := h.geom
  have hpos := hg.clusterSize_pos
  have hparse := parse_pathOf h hio hcs hc hdir
  cases hfind : lookup e.geom v d c with
  | none =>
    rw [hfind] at hparse
    have hread := fatParsePath_onlyRead e v (pathOf (cs ++ [c])) true
    unfold fatWriteFileAt
    generalize v.fatParsePath e (pathOf (cs ++ [c])) true = r at hparse hread
    dsimp only
    rw [hparse]
    exact h.volume.kept (fun d j hd _ _ => SameEntries.of_disk hread.disk d j hd) hread.table
  | some i =>
    rw [hfind] at hplain
    have hfile := hplain _ rfl
    have hat : FileAt e.geom v (pathOf (cs ++ [c])) d i :=
      ⟨⟨cs, c, rfl, hcs, hc.toProper, hdir, hfind⟩, hfile⟩
    have ht := hat.treeEntry
    obtain ⟨chain, hchain⟩ := h.volume.isFile ht hfile
    have hresolves := hat.resolves h.volume hg hio hchain
    have hsame := hat.sameParent h.volume hg h.root
    have hgood : ∀ o k : ℕ, (fun _ _ => true : ℕ → ℕ → Bool) o k = true := fun _ _ => rfl
    have hlt := fileSize_lt (entryIn e.geom v d i)
    have hcond := hsafe.imp_right fun hall => hall d i (entryAt_pathOf hcs hc hdir hfind)
    rcases write_reshaped hg hio hchain hsame hresolves buffer hgood hmax hcond
      with ⟨-, chain', hr⟩ | ⟨-, -, hr⟩
    · exact hr.volumeOk h.volume ht hfile hchain (by omega)
    · exact hr.volumeOk h.volume ht hfile hchain hlt

theorem VolumeOk.resize {size : ℕ} (hmax : size ≤ 2 ^ 32 - e.geom.clusterSize)
    (hplain : ∀ dir ∈ (lookup e.geom v d c).map (entryIn e.geom v d), dir.isDir = false) :
    VolumeOk e.geom (v.fatResizeFile e (pathOf (cs ++ [c])) size).1 := by
  have hg := h.geom
  have hpos := hg.clusterSize_pos
  have hparse := parse_pathOf h hio hcs hc hdir
  cases hfind : lookup e.geom v d c with
  | none =>
    rw [hfind] at hparse
    have hread := fatParsePath_onlyRead e v (pathOf (cs ++ [c])) true
    unfold fatResizeFile
    generalize v.fatParsePath e (pathOf (cs ++ [c])) true = r at hparse hread
    dsimp only
    rw [hparse]
    exact h.volume.kept (fun d j hd _ _ => SameEntries.of_disk hread.disk d j hd) hread.table
  | some i =>
    rw [hfind] at hplain
    have hfile := hplain _ rfl
    have hat : FileAt e.geom v (pathOf (cs ++ [c])) d i :=
      ⟨⟨cs, c, rfl, hcs, hc.toProper, hdir, hfind⟩, hfile⟩
    have ht := hat.treeEntry
    obtain ⟨chain, hchain⟩ := h.volume.isFile ht hfile
    have hresolves := hat.resolves h.volume hg hio hchain
    have hsame := hat.sameParent h.volume hg h.root
    have hlt := fileSize_lt (entryIn e.geom v d i)
    have hold : (entryIn e.geom v d i).fileSize ≤ 2 ^ 32 - e.geom.clusterSize := by
      have hle := le_fileClusters hpos (entryIn e.geom v d i).fileSize
      have hlimit := bytes_fit hg h.small (length_add_free_le hchain.isChain)
      rw [← hchain.length] at hle
      exact hle.trans ((Nat.mul_le_mul_right _ (Nat.le_add_right _ _)).trans hlimit)
    rcases resize_reshaped hg hio hchain hsame hresolves hmax hold with ⟨-, chain', hr⟩ | ⟨-, -, hr⟩
    · exact hr.volumeOk h.volume ht hfile hchain (by omega)
    · exact hr.volumeOk h.volume ht hfile hchain hlt

/-- The deletion of the entry, when its name finds no other. -/
theorem VolumeOk.deleteEntry {u : Vol} (hread : OnlyRead v u) (hfind : lookup e.geom v d c = some i)
    {extension : Str}
    (hown : ∀ j, scanFrom ((dirRegion e.geom d).buf v.disk) (entryIn e.geom v d i).name extension
      (dirRegion e.geom d).entries 0 = some j → j = i)
    (hleaf : (entryIn e.geom v d i).isDir = true →
      EmptyDir e.geom v (entryIn e.geom v d i).firstClusterNo) :
    VolumeOk e.geom (u.deleteEntry e (pathOf (cs ++ [c])) (entryIn e.geom v d i) extension).1 := by
  have hg := h.geom
  have hat := entryAt_pathOf hcs hc hdir hfind
  have ht := hat.treeEntry
  have hparent := parentDir_pathOf h.volume hg hio hcs hc.toProper hdir
  obtain ⟨chain, hchain⟩ := h.volume.chain d i ht
  by_cases hex : ∃ c' j, Found e v (pathOf (cs ++ [c])) (entryIn e.geom v d i).name extension c' j
  · obtain ⟨c', j, hfound⟩ := hex
    obtain rfl := Option.some.inj (hparent.symm.trans hfound.parent)
    obtain rfl := hown j hfound.first
    obtain ⟨-, hdel⟩ := deleteEntry_found hg hio h.volume.wellFormed ht
      (hat.resolves h.volume hg hio) hread hfound hchain.chainOf
    exact h.volume.deleted ht hleaf hchain hdel
  · have hnot :
        ∀ c' j, ¬Found e u (pathOf (cs ++ [c])) (entryIn e.geom v d i).name extension c' j :=
      fun c' j hfound => hex ⟨c', j, hfound.disk hio hread.disk.symm⟩
    obtain ⟨-, hdisk, htable⟩ := deleteEntry_missing hio hnot
    exact h.volume.kept (fun d j hd _ _ => SameEntries.of_disk (hdisk.trans hread.disk) d j hd)
      (htable.trans hread.table)

theorem VolumeOk.deleteFile
    (hplain : ∀ dir ∈ (lookup e.geom v d c).map (entryIn e.geom v d), dir.isDir = false) :
    VolumeOk e.geom (v.fatDeleteFile e (pathOf (cs ++ [c]))).1 := by
  have hparse := parse_pathOf h hio hcs hc hdir
  have hread := fatParsePath_onlyRead e v (pathOf (cs ++ [c])) true
  unfold fatDeleteFile
  generalize v.fatParsePath e (pathOf (cs ++ [c])) true = r at hparse hread
  dsimp only
  rw [hparse]
  cases hfind : lookup e.geom v d c with
  | none =>
    exact h.volume.kept (fun d j hd _ _ => SameEntries.of_disk hread.disk d j hd) hread.table
  | some i =>
    rw [hfind] at hplain
    have hfirst := (entryAt_pathOf hcs hc hdir hfind).first
    refine VolumeOk.deleteEntry h hio hcs hc hdir hread hfind (fun j hj => ?_) fun hdir => ?_
    · exact (Option.some.inj (hfirst.symm.trans hj)).symm
    · exact Bool.noConfusion ((hplain _ rfl).symm.trans hdir)

theorem VolumeOk.deleteDir (hsafe : (VolumeCall.deleteDir (pathOf (cs ++ [c]))).Safe e.geom v) :
    VolumeOk e.geom (v.fatDeleteDir e (pathOf (cs ++ [c]))).1 := by
  have hg := h.geom
  have hparse := parse_pathOf h hio hcs hc hdir
  have hread := fatParsePath_onlyRead e v (pathOf (cs ++ [c])) true
  have hkept : ∀ {w : Vol}, OnlyRead v w → VolumeOk e.geom w := fun hw =>
    h.volume.kept (fun d j hd _ _ => SameEntries.of_disk hw.disk d j hd) hw.table
  unfold fatDeleteDir
  generalize v.fatParsePath e (pathOf (cs ++ [c])) true = r at hparse hread
  dsimp only
  rw [hparse]
  cases hfind : lookup e.geom v d c with
  | none => exact hkept hread
  | some i =>
    have hat := entryAt_pathOf hcs hc hdir hfind
    have ht := hat.treeEntry
    obtain ⟨chain, hchain⟩ := h.volume.chain d i ht
    rw [Option.map_some]
    dsimp only
    cases hisDir : (entryIn e.geom v d i).isDir with
    | false => exact hkept hread
    | true =>
      have hread' : OnlyRead v
          (r.1.ataReadExact e (e.geom.clusterAddr (entryIn e.geom v d i).firstClusterNo)).1 :=
        hread.trans (.tick _)
      have hempty := emptyFrom_dir (v := r.1) hg hchain.valid_start
      rw [if_neg (by decide)]
      unfold ataReadExact at hread' ⊢
      rw [hio]
      dsimp only at hread' ⊢
      rw [if_pos rfl]
      dsimp only
      by_cases hyes : emptyFrom
        (fun k => r.1.disk (e.geom.clusterAddr (entryIn e.geom v d i).firstClusterNo + k))
          (e.geom.clusterSize / 32) 0 = true
      · rw [if_pos hyes]
        have hleaf : EmptyDir e.geom v (entryIn e.geom v d i).firstClusterNo := by
          have := hempty.mp hyes
          unfold EmptyDir entryIn at this ⊢
          rwa [hread.disk] at this
        exact VolumeOk.deleteEntry h hio hcs hc hdir hread' hfind
          (hsafe d i hat hisDir hleaf) fun _ => hleaf
      · rw [if_neg hyes]
        exact hkept hread'

end Step

theorem VolumeCall.step (h : GoodVolume e.geom v) (hio : ∀ n, e.io n = none) (call : VolumeCall)
    (hallowed : call.Allowed e.geom v)
    (hsafe : call.Safe e.geom v) : VolumeOk e.geom (call.exec e v).1 := by
  obtain ⟨cs, c, d, hpath, hcs, hc, hdir, hfits⟩ := hallowed
  cases call with
  | newFile path =>
    obtain rfl : path = _ := hpath
    exact VolumeOk.newFile h hio hcs hc hdir
  | newDir path =>
    obtain rfl : path = _ := hpath
    exact VolumeOk.newDir h hio hcs hc hdir
  | write path buffer offset size =>
    obtain rfl : path = _ := hpath
    exact VolumeOk.write h hio hcs hc hdir buffer hfits.1 hfits.2 hsafe
  | resize path size =>
    obtain rfl : path = _ := hpath
    exact VolumeOk.resize h hio hcs hc hdir hfits.1 hfits.2
  | deleteFile path =>
    obtain rfl : path = _ := hpath
    exact VolumeOk.deleteFile h hio hcs hc hdir hfits
  | deleteDir path =>
    obtain rfl : path = _ := hpath
    exact VolumeOk.deleteDir h hio hcs hc hdir hsafe

/-- The invariant of the volume holds after every run of these calls. -/
theorem volumeOk_run (e : Env) (hio : ∀ n, e.io n = none) (v : Vol) (h : GoodVolume e.geom v)
    (calls : List VolumeCall) (hcalls : Machine.Along (VolumeCall.exec e)
      (fun v call => call.Allowed e.geom v ∧ call.Safe e.geom v) v calls) :
    VolumeOk e.geom (Machine.run (VolumeCall.exec e) v calls).1 :=
  Machine.run_history_along (P := fun _ v => VolumeOk e.geom v) h.volume
    (fun _ _ call hu hcall => call.step { h with volume := hu } hio hcall.1 hcall.2) hcalls

theorem plain_of_all {o : Option Raw} (h : (o.all fun dir => !dir.isDir) = true) :
    ∀ dir ∈ o, dir.isDir = false := by
  rintro dir rfl
  simpa using h

theorem oneDir_good : GoodVolume smallGeom oneDir :=
  ⟨smallGeom_ok, ⟨rfl, by decide⟩, by decide, oneDir_volumeOk⟩

theorem name83_letter (b : UInt8) (hb : b = 65 ∨ b = 66 ∨ b = 67) : Name83 [b] := by
  rcases hb with rfl | rfl | rfl <;>
    exact ⟨⟨rfl, by decide, by decide, by decide⟩, by decide, by decide, by decide⟩

theorem proper_d : ∀ c' ∈ [[(68 : UInt8)]], Proper c' := fun c' hc' => by
  rw [List.mem_singleton.mp hc']
  exact ⟨rfl, by decide, by decide, by decide⟩

/-- `/B` and `/D/C` are created, and `/D/A` is written behind its end. -/
theorem volumeOk_run_oneDir :
    VolumeOk smallGeom (Machine.run (VolumeCall.exec (calm smallGeom)) oneDir
    [.newFile [slash, 66], .newDir [slash, 68, slash, 67],
      .write [slash, 68, slash, 65] (fun _ => 7) 600 3]).1 := by
  refine volumeOk_run (calm smallGeom) (fun _ => rfl) oneDir oneDir_good _
    ⟨⟨?_, trivial⟩, ⟨?_, trivial⟩, ⟨?_, .inl (by decide)⟩, trivial⟩
  · exact ⟨[], [66], 0, rfl, fun _ hc' => absurd hc' List.not_mem_nil, name83_letter 66 (by decide),
      rfl, trivial⟩
  · exact ⟨[[68]], [67], 2, rfl, proper_d, name83_letter 67 (by decide), by decide +kernel, trivial⟩
  · exact ⟨[[68]], [65], 2, rfl, proper_d, name83_letter 65 (by decide),
      by decide +kernel, by decide,
      plain_of_all (by decide +kernel)⟩

/-- Nothing is written to the empty file `/D/A` at the beginning of its third cluster: it gets a
second cluster, but no size. -/
theorem volumeOk_broken : ¬∀ (e : Env), (∀ n, e.io n = none) →
    ∀ v : Vol, GoodVolume e.geom v → ∀ calls : List VolumeCall,
    Machine.Along (VolumeCall.exec e) (fun v call => call.Allowed e.geom v) v calls →
    VolumeOk e.geom (Machine.run (VolumeCall.exec e) v calls).1 := by
  intro hall
  have hok := hall (calm smallGeom) (fun _ => rfl) oneDir oneDir_good
    [.write [slash, 68, slash, 65] (fun _ => 0) 1024 0]
    ⟨⟨[[68]], [65], 2, rfl, proper_d, name83_letter 65 (by decide), by decide +kernel, by decide,
      plain_of_all (by decide +kernel)⟩, trivial⟩
  have hwritten : ∃ u, (Machine.run (VolumeCall.exec (calm smallGeom)) oneDir
      [.write [slash, 68, slash, 65] (fun _ => 0) 1024 0]).1 = u ∧
        (dirRegion smallGeom 0).Live u.disk 0 ∧
      (entryIn smallGeom u 0 0).isDir = true ∧ isDots (entryIn smallGeom u 0 0) = false ∧
      (entryIn smallGeom u 0 0).firstClusterNo = 2 ∧ (dirRegion smallGeom 2).Live u.disk 2 ∧
      isDots (entryIn smallGeom u 2 2) = false ∧ (entryIn smallGeom u 2 2).isDir = false ∧
      (entryIn smallGeom u 2 2).firstClusterNo = 3 ∧ (entryIn smallGeom u 2 2).fileSize = 0 ∧
      nextOf smallGeom u.table 3 = some 4 ∧ nextOf smallGeom u.table 4 = none ∧
        0xFFF8 ≤ u.table 4 :=
    ⟨_, rfl, by decide +kernel⟩
  obtain ⟨u, heq, hlive, hdir, hdots, hfirst, hlive', hdots', hplain, hstart, hsize, hnext, hend,
      hlast⟩ := hwritten
  change VolumeOk smallGeom _ at hok
  rw [heq] at hok
  have hin := (dirIn_root smallGeom u).sub hlive hdir hdots
  rw [hfirst] at hin
  have hchain : IsChain smallGeom u.table (entryIn smallGeom u 2 2).firstClusterNo [3, 4] := by
    rw [hstart]
    exact ⟨by decide, ⟨rfl, hnext, hend⟩, fun c hc => Option.some.inj hc ▸ hlast⟩
  have hlength := hok.length 2 2 [3, 4] ⟨hin, hlive', hdots'⟩ hplain hchain
  rw [hsize] at hlength
  exact absurd hlength (by decide)

end X86Kernel.Fat
