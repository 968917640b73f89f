import X86Kernel.Fat.Path

/-! The operations of the driver: creating, writing, resizing, reading, renaming and deleting. -/
namespace X86Kernel.Fat

/-- A cluster of zeros. -/
def zeros : Buf := fun _ => 0

/-- The parent of a path and its last part, with an empty parent taken for the root. -/
def splitParent (path : Str) : Str × Str :=
  let r := strsplitLast path slash
  (if r.1 = [] then [slash] else r.1, r.2)

namespace Geom

variable (g : Geom)

/-- The clusters that `size` bytes take; the sum is computed in 32 bits. -/
def clustersOf (size : ℕ) : ℕ := (size + g.clusterSize - 1) % 2 ^ 32 / g.clusterSize

end Geom

namespace Vol

variable (e : Env) (v : Vol)

/-- The loop that goes on to the last of `n` more clusters, or to the end of the chain. -/
def walkChain (g : Geom) (table : ℕ → ℕ) : ℕ → ℕ → ℕ
  | 0, cur => cur
  | n + 1, cur => if fatValidCluster g (table cur) then walkChain g table n (table cur) else cur

/-- `fat_unwind_chain`. -/
def fatUnwindChain (g : Geom) (lastCluster origTail : ℕ) : Vol :=
  if !fatValidCluster g lastCluster then v
  else if v.table lastCluster = origTail then v
  else
    let cur := v.table lastCluster
    ((v.fatTableUpdateCluster g lastCluster origTail).1.freeFrom g cur cur true).vol

/-- `fat_shrink_cluster_chain`: the number of clusters freed, or `none` for an error. -/
def fatShrinkClusterChain (startCluster oldSize newSize : ℕ) : Vol × Option ℕ :=
  let g := e.geom
  if !fatValidCluster g startCluster then (v, none)
  else if g.clustersOf oldSize ≤ g.clustersOf newSize then (v, some 0)
  else
    let cur := walkChain g v.table (g.clustersOf newSize - 1) startCluster
    let r := v.fatTableUpdateCluster g cur 0xFFFF
    let f := r.1.freeFrom g (v.table cur) cur r.2
    let w := f.vol.fatTableFlushCache e f.lo f.hi
    (w.1, if f.ok && w.2 then some f.freed else none)

/-- The bytes from the old end of the file to the end of its last cluster are zeroed. -/
def zeroGap (lastCluster oldSize newSize : ℕ) : Vol × Bool :=
  let g := e.geom
  let start := oldSize % g.clusterSize
  let stop := min ((newSize - (oldSize - start)) % 2 ^ 32) g.clusterSize
  if start ≠ 0 ∨ oldSize = 0 then
    if start = 0 then
      if e.heap v.clock then v.ataWriteExact e (g.clusterAddr lastCluster) zeros g.clusterSize
      else (v, false)
    else
      let r := v.ataReadExact e (g.clusterAddr lastCluster)
      match r.2 with
      | none => (r.1, false)
      | some gapBuf =>
        r.1.ataWriteExact e (g.clusterAddr lastCluster)
          (fun i => if start ≤ i ∧ i < stop then 0 else gapBuf i)
          g.clusterSize
  else (v, true)

/-- The loop that allocates `n` more clusters; `none` if one could not be had, and all are given
back. -/
def extendLoop (lastCluster origTail : ℕ) : ℕ → ℕ → ℕ → ℕ → ℕ → Vol → Vol × Option (ℕ × ℕ)
  | 0, _, _, lo, hi, v => (v, some (lo, hi))
  | n + 1, searchFrom, prev, lo, hi, v =>
    match v.findFree e.geom searchFrom with
    | none => (v.fatUnwindChain e.geom lastCluster origTail, none)
    | some freeCluster =>
      let w := v.ataWriteExact e (e.geom.clusterAddr freeCluster) zeros e.geom.clusterSize
      if w.2 then
        let r := w.1.fatTableUpdateCluster e.geom freeCluster 0xFFFF
        let r' := r.1.fatTableUpdateCluster e.geom prev freeCluster
        if r.2 && r'.2 then
          extendLoop lastCluster origTail n ((freeCluster + 1) % 2 ^ 16) freeCluster
            (min lo freeCluster)
            (max hi freeCluster) r'.1
        else ((if r.2 then r'.1 else r.1).fatUnwindChain e.geom lastCluster origTail, none)
      else (w.1.fatUnwindChain e.geom lastCluster origTail, none)

/-- `fat_extend_cluster_chain`: the number of clusters allocated, or `none` for an error. -/
def fatExtendClusterChain (startCluster oldSize newSize : ℕ) : Vol × Option ℕ :=
  let g := e.geom
  let oldClusters := if g.clustersOf oldSize = 0 then 1 else g.clustersOf oldSize
  let newClusters := g.clustersOf newSize
  if newSize ≤ oldSize then (v, some 0)
  else if !fatValidCluster g startCluster then (v, none)
  else
    let lastCluster := walkChain g v.table (oldClusters - 1) startCluster
    let z := v.zeroGap e lastCluster oldSize newSize
    if !z.2 then (z.1, none)
    else if newClusters ≤ oldClusters then (z.1, some 0)
    else if z.1.fatFreeClusters g < newClusters - oldClusters then (z.1, none)
    else if !e.heap z.1.clock then (z.1, none)
    else
      let origTail := z.1.table lastCluster
      let r := extendLoop e lastCluster origTail
        (newClusters - oldClusters) 2 lastCluster lastCluster lastCluster z.1
      match r.2 with
      | none => (r.1, none)
      | some (lo, hi) =>
        let w := r.1.fatTableFlushCache e lo hi
        if w.2 then (w.1, some (newClusters - oldClusters))
        else (((w.1.fatUnwindChain g lastCluster origTail).fatTableFlushCache e lo hi).1, none)

/-- The cluster of a new file is claimed and the claim written to disk. -/
def claimCluster (cluster : ℕ) : Vol × Bool :=
  let r := v.fatTableUpdateCluster e.geom cluster 0xFFFF
  if r.2 then r.1.fatTableFlushCache e cluster cluster else r

def releaseCluster (cluster : ℕ) : Vol :=
  ((v.fatTableUpdateCluster e.geom cluster 0).1.fatTableFlushCache e cluster cluster).1

/-- The region a new entry goes to, once the parent of the path was looked up. -/
def parentRegion (g : Geom) (inroot : Bool) (parent : Option Raw) : Option Region :=
  if inroot then some g.rootRegion else parent.map fun dir => g.clusterRegion dir.firstClusterNo

def fatNewFile (path : Str) : Vol × Bool :=
  let parentpath := (splitParent path).1
  let filenamefull := strtoupper (splitParent path).2
  if 11 < filenamefull.length then (v, false)
  else
    let p := v.fatParsePath e parentpath true
    match parentRegion e.geom (parentpath = [slash]) p.2 with
    | none => (p.1, false)
    | some region =>
      let filename := (strsplit filenamefull dot).1
      let extension := (strsplit filenamefull dot).2.1
      match p.1.findFree e.geom 2 with
      | none => (p.1, false)
      | some freeCluster =>
        let filedir := newEntry (paddedName filename extension) 0x20 freeCluster
        let r := p.1.ataReadExact e region.addr
        match r.2 with
        | none => (r.1, false)
        | some dirBuf =>
          match placeFrom dirBuf filedir region.entries 0 with
          | .taken => (r.1, false)
          | .full =>
            (if r.1.table freeCluster ≠ 0 then r.1.releaseCluster e freeCluster else r.1, false)
          | .free i =>
            let w := r.1.storeEntry e region dirBuf i filedir
            let c := if w.2 then w.1.claimCluster e freeCluster else w
            if c.2 then c
            else (if c.1.table freeCluster ≠ 0 then c.1.releaseCluster e freeCluster
              else c.1, false)

/-- The 11 name bytes of a new directory: what follows the name on the stack is copied with it. -/
def dirName (junk : ℕ → UInt8) (dirname : Str) : ℕ → UInt8 := fun j =>
  if j < 8 then if j < dirname.length then dirname.getD j 0 else if j = dirname.length then 0
  else junk j
  else space

/-- The name bytes of `.` and `..`. -/
def dotName (n : ℕ) : ℕ → UInt8 := fun j => if j < n then dot else space

/-- The first cluster of a new directory. -/
def newDirBuf (cluster parent : ℕ) : Buf :=
  setEntry (setEntry zeros 0 (newEntry (dotName 1) 0x12 cluster)) 1
    (newEntry (dotName 2) 0x12 parent)

/-- The new directory gets its entry in the parent. -/
def linkDir (region : Region) (dir : Raw) (cluster : ℕ) : Vol × Bool :=
  let r := v.ataReadExact e region.addr
  match r.2 with
  | none => (r.1, false)
  | some dirBuf =>
    match placeFrom dirBuf dir region.entries 0 with
    | .taken => (r.1, false)
    | .full => (r.1, false)
    | .free i =>
      let w := r.1.storeEntry e region dirBuf i dir
      if w.2 then w.1.fatTableFlushCache e cluster cluster else w

def fatNewDir (path : Str) : Vol × Bool :=
  let parentpath := (splitParent path).1
  let dirname := strtoupper (splitParent path).2
  if 8 < dirname.length then (v, false)
  else
    let inroot : Bool := parentpath = [slash]
    let p := if inroot then (v, none) else v.fatParsePath e parentpath true
    match parentRegion e.geom inroot p.2 with
    | none => (p.1, false)
    | some region =>
      match p.1.findFree e.geom 2 with
      | none => (p.1, false)
      | some freeCluster =>
        let dir := newEntry (dirName (e.junk p.1.clock) dirname) 0x10 freeCluster
        let c := p.1.fatTableUpdateCluster e.geom freeCluster 0xFFFF
        if !c.2 then (p.1, false)
        else
          let parentCluster := match p.2 with
            | none => 0
            | some parent => parent.firstClusterNo
          let w := c.1.ataWriteExact e (e.geom.clusterAddr freeCluster)
            (newDirBuf freeCluster parentCluster)
            e.geom.clusterSize
          if !w.2 then ((w.1.fatTableUpdateCluster e.geom freeCluster 0).1, false)
          else
            let l := w.1.linkDir e region dir freeCluster
            if l.2 then l else (l.1.releaseCluster e freeCluster, false)

/-- The size in the entry that `path` names is replaced. -/
def updateSize (path : Str) (dir : Raw) (size : ℕ) : Vol × Bool :=
  let parentpath := (strsplitLast path slash).1
  let inroot : Bool := parentpath = [slash] ∨ parentpath = []
  let p := v.fatParsePath e path false
  if inroot then p.1.fatUpdateInDir e 0 dir.name dir.extension (dir.setFileSize size)
  else
    match p.2 with
    | none => (p.1, false)
    | some parent =>
      p.1.fatUpdateInDir e parent.firstClusterNo dir.name dir.extension (dir.setFileSize size)

/-- `fat_resize_file`. -/
def fatResizeFile (path : Str) (size : ℕ) : Vol × ℤ :=
  let p := v.fatParsePath e path true
  match p.2 with
  | none => (p.1, -1)
  | some dir =>
    if size = dir.fileSize then (p.1, 0)
    else
      let r := if size < dir.fileSize then
        p.1.fatShrinkClusterChain e dir.firstClusterNo dir.fileSize size
        else p.1.fatExtendClusterChain e dir.firstClusterNo dir.fileSize size
      if r.2.isNone then (r.1, -2)
      else
        let u := r.1.updateSize e path dir size
        (u.1, if u.2 then 0 else -3)

/-- The cluster that holds `offset`; `none` if the chain ends before it. -/
def skipTo (g : Geom) (table : ℕ → ℕ) : ℕ → ℕ → Option ℕ
  | 0, cur => some cur
  | n + 1, cur => if fatValidCluster g (table cur) then skipTo g table n (table cur) else none

/-- The loop of `fat_write_file_at`: `n` bounds its turns, and `none` is a cluster that could not be
read. -/
def writeLoop (buffer : Buf) (mapped : ℕ → ℕ → Bool) : ℕ → ℕ → ℕ → ℕ → ℕ → Vol → Vol × Option ℕ
  | 0, _, _, _, bytesWritten, v => (v, some bytesWritten)
  | n + 1, curCluster, writeOffset, bytesRemaining, bytesWritten, v =>
    let g := e.geom
    if bytesRemaining = 0 then (v, some bytesWritten)
    else
      let consumed := min (g.clusterSize - writeOffset) bytesRemaining
      if !mapped bytesWritten consumed then (v, some bytesWritten)
      else
        let next (w : Vol) : Vol × Option ℕ :=
          if fatValidCluster g (w.table curCluster) then
            writeLoop buffer mapped n (w.table curCluster) 0 (bytesRemaining - consumed)
              (bytesWritten + consumed) w
          else (w, some (bytesWritten + consumed))
        if 0 < writeOffset ∨ bytesRemaining < g.clusterSize then
          let r := v.ataReadExact e (g.clusterAddr curCluster)
          match r.2 with
          | none => (r.1, none)
          | some clusterBuf =>
            let w := r.1.ataWriteExact e (g.clusterAddr curCluster)
              (fun i => if writeOffset ≤ i ∧ i < writeOffset + consumed then
                buffer (bytesWritten + (i - writeOffset))
                else clusterBuf i) g.clusterSize
            if w.2 then next w.1 else (w.1, some bytesWritten)
        else
          let w := v.ataWriteExact e (g.clusterAddr curCluster)
            (fun i => buffer (bytesWritten + i)) g.clusterSize
          if w.2 then next w.1 else (w.1, some bytesWritten)

/-- `fat_write_file_at`; `mapped` is whether the task's buffer is still valid, for an offset and a
length. -/
def fatWriteFileAt (path : Str) (buffer : Buf) (offset size : ℕ)
    (mapped : ℕ → ℕ → Bool) : Vol × ℤ :=
  let g := e.geom
  let p := v.fatParsePath e path true
  match p.2 with
  | none => (p.1, -1)
  | some dir =>
    if !fatValidCluster g dir.firstClusterNo then (p.1, -1)
    else
      let newsize := (offset + size) % 2 ^ 32
      let x := if dir.fileSize < newsize then
        p.1.fatExtendClusterChain e dir.firstClusterNo dir.fileSize newsize
        else (p.1, some 0)
      if x.2.isNone then (x.1, -2)
      else
        match skipTo g x.1.table (offset / g.clusterSize) dir.firstClusterNo with
        | none => (x.1, -3)
        | some curCluster =>
          let w := writeLoop e buffer mapped size curCluster (offset % g.clusterSize) size 0 x.1
          match w.2 with
          | none => (w.1, -4)
          | some bytesWritten =>
            if dir.fileSize < (offset + bytesWritten) % 2 ^ 32 then
              let u := w.1.updateSize e path dir ((offset + bytesWritten) % 2 ^ 32)
              (u.1, if u.2 then (bytesWritten : ℤ) else -3)
            else (w.1, bytesWritten)

/-- The loop of `fat_read_file_user`, with the bytes read so far; `copied` is what `copy_to_task`
returns for an offset and a length, `none` if it fails. -/
def readLoop (size : ℕ) (copied : ℕ → ℕ → Option ℕ) :
    ℕ → ℕ → ℕ → List UInt8 → Vol → Vol × List UInt8
  | 0, _, _, bytes, v => (v, bytes)
  | n + 1, curCluster, offset, bytes, v =>
    let g := e.geom
    let clusterReadSize := min (g.clusterSize - offset) (size - bytes.length)
    let r := v.ataReadExact e ((g.clusterAddr curCluster + offset) % 2 ^ 32)
    match r.2 with
    | none => (r.1, bytes)
    | some clusterBuf =>
      match copied bytes.length clusterReadSize with
      | none => (r.1, bytes)
      | some written =>
        let bytes := bytes ++ (List.range (min written clusterReadSize)).map clusterBuf
        if size ≤ bytes.length ∨ written < clusterReadSize then (r.1, bytes)
        else if fatValidCluster g (v.table curCluster) then
          readLoop size copied n (v.table curCluster) 0 bytes r.1
        else (r.1, bytes)

/-- `fat_read_file_user`; `none` is an error, also when there is no memory for a cluster. -/
def fatReadFileUser (clusterNo offset size : ℕ) (copied : ℕ → ℕ → Option ℕ) :
    Vol × Option (List UInt8) :=
  let g := e.geom
  if !fatValidCluster g clusterNo then (v, none)
  else if size = 0 then (v, some [])
  else
    match skipTo g v.table (offset / g.clusterSize) clusterNo with
    | none => (v, none)
    | some curCluster =>
      if !e.heap v.clock then (v, none)
      else
        let r := readLoop e size copied size curCluster (offset % g.clusterSize) [] v
        (r.1, if r.2 = [] then none else some r.2)

/-- The first loop of `fat_read_file`, which counts the clusters of a chain in 16 bits; `none` if it
goes on for ever. -/
def countChain (g : Geom) (table : ℕ → ℕ) : ℕ → ℕ → ℕ → Option ℕ
  | 0, _, _ => none
  | n + 1, c, clusterCount =>
    if clusterCount ≤ g.noClusters ∧ fatValidCluster g (table c) then
      countChain g table n (table c) ((clusterCount + 1) % 2 ^ 16)
    else some clusterCount

/-- The second loop of `fat_read_file`. -/
def readWhole (allocate : ℕ) : ℕ → ℕ → List UInt8 → Vol → Vol × Option (List UInt8)
  | 0, _, bytes, v => (v, some bytes)
  | n + 1, c, bytes, v =>
    let g := e.geom
    let r := v.ataReadExact e (g.clusterAddr c)
    match r.2 with
    | none => (r.1, none)
    | some clusterBuf =>
      let left := allocate - bytes.length
      let bytes := bytes ++ (List.range (min g.clusterSize left)).map clusterBuf
      if left < g.clusterSize then (r.1, some bytes)
      else if fatValidCluster g (v.table c) then readWhole allocate n (v.table c) bytes r.1
      else (r.1, some bytes)

/-- One entry that `fat_rename` gives its new name: `strncpy` of 11 bytes also ends the string, and
so zeroes the attributes. -/
def renameEntry (dir : Raw) (newname : ℕ → UInt8) : Raw := fun j =>
  if j < 11 then newname j else if j = 11 then 0 else dir j

/-- The loop of `fat_rename`, which looks at every entry; whether one matched. -/
def renameFrom (name extension : Str) (newname : ℕ → UInt8) : ℕ → ℕ → Buf → Buf × Bool
  | 0, _, buf => (buf, false)
  | n + 1, i, buf =>
    if fatEntryMatchesFilename (entryAt buf i) name extension then
      ((renameFrom name extension newname n (i + 1)
        (setEntry buf i (renameEntry (entryAt buf i) newname))).1, true)
    else renameFrom name extension newname n (i + 1) buf

/-- The parent path with a slash at its end. The byte before an empty one is whatever the stack
holds. -/
def renameParent (before : UInt8) (parentpath : Str) : Str :=
  if (if parentpath = [] then before else parentpath.getLastD 0) = slash then parentpath
  else parentpath ++ [slash]

def fatRename (path filename : Str) : Vol × Bool :=
  let parentpath := renameParent (e.junk v.clock 0) (strsplitLast path slash).1
  let oldname := (strsplitLast path slash).2
  let name := (strsplit oldname dot).1
  let extension := (strsplit oldname dot).2.1
  let p := if parentpath = [slash] then (v, none) else v.fatParsePath e parentpath false
  match parentRegion e.geom (parentpath = [slash]) p.2 with
  | none => (p.1, false)
  | some region =>
    let r := p.1.ataReadExact e region.addr
    match r.2 with
    | none => (r.1, false)
    | some dirBuf =>
      let newname := paddedName (strsplit filename dot).1 (strsplit filename dot).2.1
      let m := renameFrom name extension newname region.entries 0 dirBuf
      if m.2 then r.1.ataWriteExact e region.addr m.1 region.size else (r.1, false)

/-- The cluster of the parent of `path`, 0 for the root; `none` if it was not found. -/
def parentCluster (path : Str) : Vol × Option ℕ :=
  let parentpath := (splitParent path).1
  if parentpath = [slash] then (v, some 0)
  else
    let p := v.fatParsePath e parentpath true
    (p.1, p.2.map Raw.firstClusterNo)

/-- The entry `dir` of `path` is marked deleted and its chain freed. -/
def deleteEntry (path : Str) (dir : Raw) (extension : Str) : Vol × Bool :=
  let p := v.parentCluster e path
  match p.2 with
  | none => (p.1, false)
  | some cluster =>
    let u := p.1.fatUpdateInDir e cluster dir.name extension dir.setDeleted
    if u.2 then
      let head := dir.firstClusterNo
      let f := u.1.freeFrom e.geom head head true
      let w := f.vol.fatTableFlushCache e f.lo f.hi
      (w.1, f.ok && w.2)
    else u

def fatDeleteFile (path : Str) : Vol × Bool :=
  let p := v.fatParsePath e path true
  match p.2 with
  | none => (p.1, false)
  | some file => p.1.deleteEntry e path file file.extension

/-- `.` and `..`, by their first two bytes. -/
def isDots (dir : Raw) : Bool := dir 0 == dot && (dir 1 == space || dir 1 == dot)

/-- The check of `fat_delete_dir` that a directory has only `.` and `..`. -/
def emptyFrom (buf : Buf) : ℕ → ℕ → Bool
  | 0, _ => true
  | n + 1, i =>
    if (entryAt buf i).isEnd then true
    else if (entryAt buf i).isDeleted || isDots (entryAt buf i) then emptyFrom buf n (i + 1)
    else false

/-- `fat_delete_dir`, which looks for the name with no extension. -/
def fatDeleteDir (path : Str) : Vol × Bool :=
  let p := v.fatParsePath e path true
  match p.2 with
  | none => (p.1, false)
  | some dir =>
    if !dir.isDir then (p.1, false)
    else
      let r := p.1.ataReadExact e (e.geom.clusterAddr dir.firstClusterNo)
      match r.2 with
      | none => (r.1, false)
      | some dirBuf =>
        if emptyFrom dirBuf (e.geom.clusterSize / 32) 0 then r.1.deleteEntry e path dir []
        else (r.1, false)

end Vol

end X86Kernel.Fat
