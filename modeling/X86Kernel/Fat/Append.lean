import X86Kernel.Fs.File
import X86Kernel.Fat.FileRun

/-! Appending through several open files of one path: where `fs_write` puts what they write. -/
namespace X86Kernel.Fat

open Vol Fs

/-! ### The file system over the volume -/

section Bounds

variable {e : Env} {v : Vol}

theorem writeLoop_le (buffer : Buf) (mapped : ℕ → ℕ → Bool) (n : ℕ) :
    ∀ {cur writeOffset bytesRemaining bytesWritten b : ℕ} {v : Vol},
    (writeLoop e buffer mapped n cur writeOffset bytesRemaining bytesWritten v).2 = some b →
      b ≤ bytesWritten + bytesRemaining := by
  induction n with
  | zero =>
    intro cur writeOffset bytesRemaining bytesWritten b v h
    obtain rfl := Option.some.inj h
    omega
  | succ n ih =>
    intro cur writeOffset bytesRemaining bytesWritten b v h
    rw [writeLoop] at h
    dsimp only at h
    generalize hconsumed : min (e.geom.clusterSize - writeOffset) bytesRemaining = consumed at h
    have hnext : ∀ w : Vol, (if fatValidCluster e.geom (w.table cur) then
        writeLoop e buffer mapped n (w.table cur) 0 (bytesRemaining - consumed)
          (bytesWritten + consumed) w
        else (w, some (bytesWritten + consumed))).2 = some b →
          b ≤ bytesWritten + bytesRemaining := by
      intro w hw
      split_ifs at hw
      · have := ih hw
        omega
      · obtain rfl := Option.some.inj hw
        omega
    split_ifs at h
    · obtain rfl := Option.some.inj h
      omega
    · obtain rfl := Option.some.inj h
      omega
    · split at h
      · cases h
      · split_ifs at h
        · exact hnext _ (by rw [if_pos ‹_›]; exact h)
        · exact hnext _ (by rw [if_neg ‹_›]; exact h)
        · obtain rfl := Option.some.inj h
          omega
    · exact hnext _ (by rw [if_pos ‹_›]; exact h)
    · exact hnext _ (by rw [if_neg ‹_›]; exact h)
    · obtain rfl := Option.some.inj h
      omega

theorem fatWriteFileAt_le (e : Env) (v : Vol) (path : Str) (buffer : Buf) (offset size : ℕ)
    (mapped : ℕ → ℕ → Bool) :
    (v.fatWriteFileAt e path buffer offset size mapped).2 ≤ size := by
  unfold fatWriteFileAt
  generalize v.fatParsePath e path true = r
  dsimp only
  cases r.2 with
  | none => exact (by omega : (-1 : ℤ) ≤ size)
  | some dir =>
    dsimp only
    by_cases hvalid : (!fatValidCluster e.geom dir.firstClusterNo) = true
    · rw [if_pos hvalid]
      exact (by omega : (-1 : ℤ) ≤ size)
    rw [if_neg hvalid]
    generalize (if dir.fileSize < (offset + size) % 2 ^ 32 then
      r.1.fatExtendClusterChain e dir.firstClusterNo dir.fileSize ((offset + size) % 2 ^ 32)
      else (r.1, some 0)) = x
    by_cases hnone : x.2.isNone = true
    · rw [if_pos hnone]
      exact (by omega : (-2 : ℤ) ≤ size)
    rw [if_neg hnone]
    cases skipTo e.geom x.1.table (offset / e.geom.clusterSize) dir.firstClusterNo with
    | none => exact (by omega : (-3 : ℤ) ≤ size)
    | some cur =>
      dsimp only
      cases hb :
        (writeLoop e buffer mapped size cur (offset % e.geom.clusterSize) size 0 x.1).2 with
      | none => exact (by omega : (-4 : ℤ) ≤ size)
      | some b =>
        have hle := writeLoop_le buffer mapped size hb
        dsimp only
        split_ifs
        · exact (by omega : (b : ℤ) ≤ size)
        · exact (by omega : (-3 : ℤ) ≤ size)
        · exact (by omega : (b : ℤ) ≤ size)

theorem readLoop_le {size : ℕ} (copied : ℕ → ℕ → Option ℕ) (n : ℕ) :
    ∀ {cur offset : ℕ} {bytes : List UInt8} {v : Vol}, bytes.length ≤ size →
      (readLoop e size copied n cur offset bytes v).2.length ≤ size := by
  induction n with
  | zero => exact fun h => h
  | succ n ih =>
    intro cur offset bytes v h
    rw [readLoop]
    dsimp only
    split
    · exact h
    split
    · exact h
    · rename_i _ clusterBuf _ _ written _
      have hlength :
            (bytes ++ (List.range
              (min written (min (e.geom.clusterSize - offset) (size - bytes.length)))).map
          clusterBuf).length ≤ size := by
        rw [List.length_append, List.length_map, List.length_range]
        omega
      split_ifs
      · exact hlength
      · exact ih hlength
      · exact hlength

theorem fatReadFileUser_le (e : Env) (v : Vol) (clusterNo offset size : ℕ)
    (copied : ℕ → ℕ → Option ℕ)
    {bytes : List UInt8} (h : (v.fatReadFileUser e clusterNo offset size copied).2 = some bytes) :
      bytes.length ≤ size := by
  unfold fatReadFileUser at h
  dsimp only at h
  cases hskip : skipTo e.geom v.table (offset / e.geom.clusterSize) clusterNo with
  | none =>
    rw [hskip] at h
    dsimp only at h
    split_ifs at h
    obtain rfl := Option.some.inj h
    exact Nat.zero_le _
  | some cur =>
    rw [hskip] at h
    dsimp only at h
    split_ifs at h
    · obtain rfl := Option.some.inj h
      exact Nat.zero_le _
    · obtain rfl := Option.some.inj h
      exact readLoop_le copied size (Nat.zero_le _)

end Bounds

/-- `fs_file_t` for `FS_TYPE_FILE`, with the size and the first cluster that `data` caches. -/
structure OpenFile where
  filename : Str
  flags : ℕ
  currentPos : ℕ
  fileSize : ℕ
  firstCluster : ℕ

/-- The volume below an open file; the buffers of the tasks are good. -/
def fatBelow (e : Env) (file : OpenFile) : Fs.Fat Vol where
  fatWriteFileAt offset bytes v :=
    let r := v.fatWriteFileAt e file.filename
      (fun k => bytes.getD k 0) offset bytes.length fun _ _ => true
    (r.2, r.1)
  fatReadFileUser offset size v :=
    let r := v.fatReadFileUser e file.firstCluster offset size copiedAll
    match r.2 with
    | none => ((-1, fun _ => 0), r.1)
    | some bytes => ((bytes.length, fun k => bytes.getD k 0), r.1)
  write_le offset bytes v := fatWriteFileAt_le e v file.filename _ offset bytes.length _
  read_le offset size v := by
    dsimp only
    cases h : (v.fatReadFileUser e file.firstCluster offset size copiedAll).2 with
    | none => exact (by omega : (-1 : ℤ) ≤ size)
    | some bytes => exact Int.ofNat_le.mpr (fatReadFileUser_le e v _ offset size copiedAll h)

/-- The volume and the files that the processes have open, by the address of the `fs_file_t`. -/
structure FileSystem where
  vol : Vol
  files : ℕ → Option OpenFile

namespace Vol

variable (e : Env) (v : Vol)

/-- What `fs_open_locked` makes of an entry that is there; `none` is a failure, and a directory,
which is no file to write to. -/
def openEntry (path : Str) (flags : ℕ) (entry : Raw) : Vol × Option OpenFile :=
  if entry.isDir then (v, none)
  else if flags &&& fsFlagTruncate ≠ 0 ∧ flags &&& fsFlagReadonly = 0 ∧ 0 < entry.fileSize then
    let r := v.fatResizeFile e path 0
    (r.1, if r.2 < 0 then none else some ⟨path, flags, 0, 0, entry.firstClusterNo⟩)
  else (v, some ⟨path, flags, 0, entry.fileSize, entry.firstClusterNo⟩)

def fsOpenLocked (path : Str) (flags : ℕ) : Vol × Option OpenFile :=
  let p := v.fatParsePath e path true
  match p.2 with
  | some entry => p.1.openEntry e path flags entry
  | none =>
    if flags &&& fsFlagCreate = 0 then (p.1, none)
    else
      -- `fs_new_locked`, which opens the file once more
      let p' := p.1.fatParsePath e path true
      match p'.2 with
      | some _ => (p'.1, none)
      | none =>
        let n := p'.1.fatNewFile e path
        if !n.2 then (n.1, none)
        else
          let q := n.1.fatParsePath e path true
          match q.2 with
          | none => (q.1, none)
          | some entry => q.1.openEntry e path flags entry

end Vol

/-- A process opens a file, or one that has it open writes to it. -/
inductive FileOp where
  | openFile (file : ℕ) (path : Str) (flags : ℕ)
  | write (file : ℕ) (bytes : List UInt8)

/-- `fs_open` and `fs_write`, each under the lock of the file system. -/
def FileSystem.exec (e : Env) (s : FileSystem) : FileOp → FileSystem × ℤ
  | .openFile file path flags =>
    let r := s.vol.fsOpenLocked e path flags
    (⟨r.1, Function.update s.files file r.2⟩, if r.2.isSome then 0 else -1)
  | .write file bytes =>
    match s.files file with
    | none => (s, -1)
    | some f =>
      let r := fsWrite (fatBelow e f) ⟨f.flags, f.currentPos, f.fileSize, s.vol⟩ bytes
      let f := { f with currentPos := r.2.currentPos, fileSize := r.2.fileSize }
      (⟨r.2.volume, Function.update s.files file (some f)⟩, r.1)

/-! ### One file -/

/-- A file that holds these bytes. -/
def ofBytes (l : List UInt8) : Contents := ⟨l.length, fun p => l.getD p 0⟩

/-- The volume is in order, and the path leads to a file that holds these bytes. -/
structure HoldsAt (e : Env) (v : Vol) (path : Str) (d i : ℕ) (content : List UInt8) : Prop where
  volume : GoodVolume e.geom v
  fileAt : FileAt e.geom v path d i
  holds : Holds e.geom v d i (ofBytes content)

variable {e : Env} {v v' : Vol} {path : Str} {d i : ℕ} {content : List UInt8}
  {chain chain' : List ℕ}

theorem HoldsAt.reshaped {l : List UInt8} {bytes : ℕ → UInt8} (h : HoldsAt e v path d i content)
    (hfile : IsFile e.geom v d i chain) (hr : Reshaped e.geom v d i chain l.length bytes v' chain')
    (hsize : l.length < 2 ^ 32) (hbytes : ∀ p < l.length, bytes p = l.getD p 0) :
    HoldsAt e v' path d i l := by
  have ht := h.fileAt.treeEntry
  constructor
  · exact { h.volume with volume := hr.volumeOk h.volume.volume ht h.fileAt.plain hfile hsize }
  · exact (hr.sameTree h.volume.volume ht h.fileAt.plain hfile).fileAt h.fileAt
  · have hholds := hr.holds hsize
    exact ⟨hholds.size, fun m hm p hp => (hholds.bytes m hm p hp).trans (hbytes p hp)⟩

/-- A lookup changes nothing. -/
theorem HoldsAt.onlyRead (h : HoldsAt e v path d i content) (hread : OnlyRead v v') :
    HoldsAt e v' path d i content := by
  obtain ⟨chain, hfile⟩ := h.volume.volume.isFile h.fileAt.treeEntry h.fileAt.plain
  have hsize : content.length < 2 ^ 32 := by
    have := fileSize_lt (entryIn e.geom v d i)
    rwa [h.holds.size] at this
  have hr := hfile.reshaped_same hread.table (.of_disk hread.disk) fun p _ =>
    congrFun (byteOf_congr hread.disk chain) p
  rw [h.holds.size] at hr
  exact h.reshaped hfile hr hsize fun p hp => h.holds.bytes chain hfile.isChain p hp

/-- A write at the end of the file appends, or fails and changes nothing. -/
theorem HoldsAt.append (h : HoldsAt e v path d i content) (hio : ∀ n, e.io n = none)
    (bytes : List UInt8) (hmax : content.length + bytes.length ≤ 2 ^ 32 - e.geom.clusterSize) :
    let r := v.fatWriteFileAt e path
      (fun k => bytes.getD k 0) content.length bytes.length fun _ _ => true
    r.2 = bytes.length ∧ HoldsAt e r.1 path d i (content ++ bytes) ∨
    r.2 < 0 ∧ HoldsAt e r.1 path d i content := by
  obtain ⟨chain, hfile⟩ := h.volume.volume.isFile h.fileAt.treeEntry h.fileAt.plain
  have hg := h.volume.geom
  have hpos := hg.clusterSize_pos
  have hresolves := h.fileAt.resolves h.volume.volume hg hio hfile
  have hsame := h.fileAt.sameParent h.volume.volume hg h.volume.root
  have hsize : (entryIn e.geom v d i).fileSize = content.length := h.holds.size
  have hold : ∀ p < content.length, byteOf e.geom v chain p = content.getD p 0 :=
    h.holds.bytes chain hfile.isChain
  have hgood : ∀ o k : ℕ, (fun _ _ => true : ℕ → ℕ → Bool) o k = true := fun _ _ => rfl
  have hwithin := hsize.ge.trans (le_fileClusters hpos (entryIn e.geom v d i).fileSize)
  rcases write_reshaped hg hio hfile hsame hresolves (fun k => bytes.getD k 0) hgood hmax
    (.inr (.inl hwithin)) with
    ⟨hret, chain', hr⟩ | ⟨hret, -, hr⟩
  · have hlength : max (entryIn e.geom v d i).fileSize (content.length + bytes.length) =
        (content ++ bytes).length := by
      rw [hsize, List.length_append]
      omega
    rw [hlength] at hr
    refine .inl ⟨hret, h.reshaped hfile hr (by rw [List.length_append]; omega) fun p hp => ?_⟩
    rw [List.length_append] at hp
    unfold overlaid padded
    by_cases hnew : content.length ≤ p
    · rw [if_pos ⟨hnew, hp⟩, List.getD_append_right _ _ _ _ hnew]
    · rw [if_neg fun hboth => hnew hboth.1, hsize, if_pos (by omega), hold p (by omega),
        List.getD_append _ _ _ _ (by omega)]
  · rw [hsize] at hr
    exact .inr ⟨hret, h.reshaped hfile hr (by omega) hold⟩

/-! ### Runs -/

/-- Some processes have one file open, each to append to it. -/
structure Sharing (e : Env) (path : Str) (d i : ℕ) (content : List UInt8)
    (s : FileSystem) : Prop where
  holds : HoldsAt e s.vol path d i content
  files : ∀ k f, s.files k = some f → f.filename = path ∧ f.flags &&& fsFlagAppend ≠ 0 ∧
    f.flags &&& fsFlagReadonly = 0

/-- The file is opened to append to it, or one that has it open writes, no more than a size
counts. -/
def FileOp.Appends (g : Geom) (path : Str) (d i : ℕ) (s : FileSystem) : FileOp → Prop
  | openFile _ path' flags =>
    path' = path ∧ flags &&& fsFlagAppend ≠ 0 ∧ flags &&& fsFlagReadonly = 0 ∧
    flags &&& fsFlagTruncate = 0
  | write file bytes =>
    (s.files file).isSome = true ∧
    (entryIn g s.vol d i).fileSize + bytes.length ≤ 2 ^ 32 - g.clusterSize

/-- The size that the writer has cached is the one of the file. -/
def FileOp.Current (g : Geom) (d i : ℕ) (s : FileSystem) : FileOp → Prop
  | openFile _ _ _ => True
  | write file _ => ∀ f, s.files file = some f → f.fileSize = (entryIn g s.vol d i).fileSize

/-- The bytes of a write that was successful. -/
def written : FileOp × ℤ → List UInt8
  | (.openFile _ _ _, _) => []
  | (.write _ bytes, answer) => if answer < 0 then [] else bytes

theorem Sharing.openFile {s : FileSystem} (h : Sharing e path d i content s)
    (hio : ∀ n, e.io n = none) (file : ℕ)
    {flags : ℕ} (hop : (FileOp.openFile file path flags).Appends e.geom path d i s) :
    Sharing e path d i content (s.exec e (.openFile file path flags)).1 := by
  obtain ⟨-, happend, hreadonly, htruncate⟩ := hop
  obtain ⟨chain, hfile⟩ :=
    h.holds.volume.volume.isFile h.holds.fileAt.treeEntry h.holds.fileAt.plain
  have hg := h.holds.volume.geom
  have hresolves := h.holds.fileAt.resolves h.holds.volume.volume hg hio hfile
  have hread := fatParsePath_onlyRead e s.vol path true
  have hfind : (s.vol.fatParsePath e path true).2 = some (entryIn e.geom s.vol d i) := by
    rw [fatParsePath_true]
    exact hresolves.walk hg hio hfile.zero_notMem fun _ _ _ _ => rfl
  have hopen :
        s.vol.fsOpenLocked e path flags = ((s.vol.fatParsePath e path true).1, some ⟨path, flags, 0,
      (entryIn e.geom s.vol d i).fileSize, (entryIn e.geom s.vol d i).firstClusterNo⟩) := by
    unfold fsOpenLocked openEntry
    dsimp only
    rw [hfind]
    dsimp only
    rw [h.holds.fileAt.plain, if_neg Bool.false_ne_true, if_neg fun hall => hall.1 htruncate]
  unfold FileSystem.exec
  dsimp only
  rw [hopen]
  constructor
  · exact h.holds.onlyRead hread
  · intro k f hf
    dsimp only at hf
    by_cases hk : k = file
    · rw [hk, Function.update_self] at hf
      obtain rfl := Option.some.inj hf
      exact ⟨rfl, happend, hreadonly⟩
    · rw [Function.update_of_ne hk] at hf
      exact h.files k f hf

theorem Sharing.write {s : FileSystem} (h : Sharing e path d i content s)
    (hio : ∀ n, e.io n = none) {file : ℕ}
    {bytes : List UInt8} (hop : (FileOp.write file bytes).Appends e.geom path d i s)
    (hcurrent : (FileOp.write file bytes).Current e.geom d i s) :
    Sharing e path d i (content ++ written (.write file bytes, (s.exec e (.write file bytes)).2))
      (s.exec e (.write file bytes)).1 := by
  obtain ⟨hsome, hmax⟩ := hop
  obtain ⟨f, hf⟩ := Option.isSome_iff_exists.mp hsome
  obtain ⟨rfl, happend, hreadonly⟩ := h.files file f hf
  have hsize : (entryIn e.geom s.vol d i).fileSize = content.length := h.holds.holds.size
  have hpos :
      (⟨f.flags, f.currentPos, f.fileSize, s.vol⟩ : File Vol).writePos = content.length := by
    unfold File.writePos
    rw [if_pos happend]
    exact (hcurrent f hf).trans hsize
  rw [hsize] at hmax
  have hcases := h.holds.append hio bytes hmax
  unfold FileSystem.exec fsWrite
  dsimp only
  rw [hf]
  dsimp only
  rw [if_neg (not_not.mpr hreadonly), hpos]
  change
    let r := s.vol.fatWriteFileAt e f.filename (fun k => bytes.getD k 0) content.length
      bytes.length fun _ _ => true
    Sharing e f.filename d i (content ++ if (if r.2 < 0 then -1 else r.2) < 0 then [] else bytes) _
  intro r
  have hcases : r.2 = bytes.length ∧ HoldsAt e r.1 f.filename d i (content ++ bytes) ∨
      r.2 < 0 ∧ HoldsAt e r.1 f.filename d i content := hcases
  constructor
  · change HoldsAt e r.1 f.filename d i _
    rcases hcases with ⟨hret, hholds⟩ | ⟨hret, hholds⟩
    · have hnonneg : ¬r.2 < 0 := by
        rw [hret]
        omega
      rwa [if_neg hnonneg, if_neg hnonneg]
    · rwa [if_pos hret, if_pos (by decide), List.append_nil]
  · intro k f' hf'
    dsimp only at hf'
    by_cases hk : k = file
    · rw [hk, Function.update_self] at hf'
      obtain rfl := Option.some.inj hf'
      exact ⟨rfl, happend, hreadonly⟩
    · rw [Function.update_of_ne hk] at hf'
      exact h.files k f' hf'

theorem current_of_map {g : Geom} {s : FileSystem} {file : ℕ} {bytes : List UInt8}
    (h : (s.files file).map OpenFile.fileSize = some (entryIn g s.vol d i).fileSize) :
    (FileOp.write file bytes).Current g d i s :=
  fun f hf => by
    rw [hf] at h
    exact Option.some.inj h

/-- In every run whose every write is by one that knows the size of the file, the file holds what it
held and then what was written, in the order of the writes. -/
theorem appends_run (e : Env) (hio : ∀ n, e.io n = none) (path : Str) (d i : ℕ)
    (content : List UInt8) (s : FileSystem) (h : Sharing e path d i content s) (ops : List FileOp)
    (hops : Machine.Along (FileSystem.exec e)
      (fun s op => op.Appends e.geom path d i s ∧ op.Current e.geom d i s) s ops) :
    HoldsAt e (Machine.run (FileSystem.exec e) s ops).1.vol path d i
      (content ++ (Machine.run (FileSystem.exec e) s ops).2.flatMap written) := by
  have hkept := Machine.run_history_along
    (P := fun history s => Sharing e path d i (content ++ history.flatMap written) s)
    (by simpa using h) (fun history t op hP hQ => by
      rw [List.flatMap_append, List.flatMap_singleton, ← List.append_assoc]
      cases op with
      | openFile file path' flags =>
        obtain rfl := hQ.1.1
        rw [written, List.append_nil]
        exact hP.openFile hio file hQ.1
      | write file bytes => exact hP.write hio hQ.1 hQ.2) hops
  exact hkept.holds

theorem oneDir_holdsAt : HoldsAt (calm smallGeom) oneDir [slash, 68, slash, 65] 2 2 [] where
  volume := ⟨smallGeom_ok, ⟨rfl, by decide⟩, by decide, oneDir_volumeOk⟩
  fileAt := oneDir_fileAt
  holds := ⟨by decide +kernel, fun _ _ p hp => absurd hp (Nat.not_lt_zero p)⟩

/-- The second process opens `/D/A` when the first has written. -/
theorem appends_run_oneDir :
    HoldsAt (calm smallGeom) (Machine.run (FileSystem.exec (calm smallGeom)) ⟨oneDir, fun _ => none⟩
      [.openFile 0 [slash, 68, slash, 65] 25, .write 0 [1, 2],
        .openFile 1 [slash, 68, slash, 65] 25, .write 1 [3]]).1.vol
      [slash, 68, slash, 65] 2 2
        ([] ++ (Machine.run (FileSystem.exec (calm smallGeom)) ⟨oneDir, fun _ => none⟩
        [.openFile 0 [slash, 68, slash, 65] 25, .write 0 [1, 2],
          .openFile 1 [slash, 68, slash, 65] 25,
          .write 1 [3]]).2.flatMap written) := by
  refine appends_run (calm smallGeom) (fun _ => rfl) _ 2 2 [] ⟨oneDir, fun _ => none⟩
    ⟨oneDir_holdsAt, fun _ _ hf => nomatch hf⟩ _
    ⟨⟨⟨rfl, ?_, ?_, ?_⟩, trivial⟩, ⟨⟨rfl, ?_⟩, current_of_map ?_⟩,
      ⟨⟨rfl, ?_, ?_, ?_⟩, trivial⟩, ⟨⟨rfl, ?_⟩, current_of_map ?_⟩, trivial⟩
  all_goals decide +kernel

/-- Both open `/D/A` before they write: the second write goes over the first. -/
theorem appends_overwrite : ¬∀ (e : Env), (∀ n, e.io n = none) →
    ∀ (path : Str) (d i : ℕ) (content : List UInt8) (s : FileSystem), Sharing e path d i content s →
      ∀ ops : List FileOp,
      Machine.Along (FileSystem.exec e) (fun s op => op.Appends e.geom path d i s) s ops →
      HoldsAt e (Machine.run (FileSystem.exec e) s ops).1.vol path d i
        (content ++ (Machine.run (FileSystem.exec e) s ops).2.flatMap written) := by
  intro hall
  have hholds :=
    hall (calm smallGeom) (fun _ => rfl) [slash, 68, slash, 65] 2 2 [] ⟨oneDir, fun _ => none⟩
    ⟨oneDir_holdsAt, fun _ _ hf => nomatch hf⟩
    [.openFile 0 [slash, 68, slash, 65] 25, .openFile 1 [slash, 68, slash, 65] 25, .write 0 [1, 2],
      .write 1 [3]]
    ⟨?_, ?_, ?_, ?_, trivial⟩
  · have hsize := hholds.holds.size
    revert hsize
    decide +kernel
  · exact ⟨rfl, by decide, by decide, by decide⟩
  · exact ⟨rfl, by decide, by decide, by decide⟩
  · exact ⟨rfl, by decide +kernel⟩
  · exact ⟨rfl, by decide +kernel⟩

end X86Kernel.Fat
