import X86Kernel.Fat.Volume

/-! Names, directory entries, and the search of a directory. -/
namespace X86Kernel.Fat

/-- A C string, without its final zero. -/
abbrev Str := List UInt8

def slash : UInt8 := 47

def dot : UInt8 := 46

def space : UInt8 := 32

/-- `strsplit`: the parts before and after the first `splitAt`, and whether it occurs. -/
def strsplit (src : Str) (splitAt : UInt8) : Str × Str × Bool :=
  if splitAt ∈ src then (src.takeWhile (· ≠ splitAt), (src.dropWhile (· ≠ splitAt)).tail, true)
  else (src, [], false)

/-- `strsplit_last`: the parts before and after the last `splitAt`; without one, the whole string
and nothing. -/
def strsplitLast (src : Str) (splitAt : UInt8) : Str × Str :=
  if splitAt ∈ src then
    ((src.reverse.dropWhile (· ≠ splitAt)).tail.reverse,
      (src.reverse.takeWhile (· ≠ splitAt)).reverse)
  else (src, [])

def toupper (c : UInt8) : UInt8 := if 97 ≤ c ∧ c ≤ 122 then c - 32 else c

def strtoupper (s : Str) : Str := s.map toupper

/-- The 32 bytes of a `fat_dir_t`. -/
abbrev Raw := ℕ → UInt8

/-- Entry `i` of a directory. -/
def entryAt (buf : Buf) (i : ℕ) : Raw := fun j => if j < 32 then buf (32 * i + j) else 0

/-- The directory with `dir` stored as entry `i`. -/
def setEntry (buf : Buf) (i : ℕ) (dir : Raw) : Buf :=
  fun x => if 32 * i ≤ x ∧ x < 32 * i + 32 then dir (x - 32 * i) else buf x

namespace Raw

variable (dir : Raw)

def attributes : UInt8 := dir 11

def firstClusterNo : ℕ := (dir 26).toNat + 256 * (dir 27).toNat

def fileSize : ℕ :=
  (dir 28).toNat + 2 ^ 8 * (dir 29).toNat + 2 ^ 16 * (dir 30).toNat + 2 ^ 24 * (dir 31).toNat

def isDir : Bool := dir.attributes &&& 0x10 != 0

/-- No more entries in the directory. -/
def isEnd : Bool := dir 0 == 0

def isDeleted : Bool := dir 0 == 0xE5

def setFileSize (size : ℕ) : Raw := fun j =>
  if j = 28 then UInt8.ofNat (size % 2 ^ 8) else if j = 29 then UInt8.ofNat (size / 2 ^ 8 % 2 ^ 8)
  else if j = 30 then UInt8.ofNat (size / 2 ^ 16 % 2 ^ 8)
    else if j = 31 then UInt8.ofNat (size / 2 ^ 24 % 2 ^ 8)
  else dir j

def setDeleted : Raw := fun j => if j = 0 then 0xE5 else dir j

/-- The name and extension as the string functions see them: up to the first space or zero. -/
def name : Str := ((List.range 8).map dir).takeWhile fun b => b ≠ 0 && b ≠ space

def extension : Str := ((List.range 3).map fun j => dir (8 + j)).takeWhile fun b =>
  b ≠ 0 && b ≠ space

/-- What a name is compared by. -/
def key : Str × Str := (strtoupper dir.name, strtoupper dir.extension)

end Raw

/-- A new entry: 11 name bytes, attributes, first cluster, and nothing else set. -/
def newEntry (filename : ℕ → UInt8) (attributes : UInt8) (firstClusterNo : ℕ) : Raw := fun j =>
  if j < 11 then filename j else if j = 11 then attributes
  else if j = 26 then UInt8.ofNat (firstClusterNo % 256)
    else if j = 27 then UInt8.ofNat (firstClusterNo / 256 % 256)
  else 0

/-- Name and extension padded with spaces. -/
def paddedName (filename extension : Str) : ℕ → UInt8 := fun j =>
  if j < 8 then filename.getD j space else extension.getD (j - 8) space

def fatEntryMatchesFilename (dir : Raw) (name extension : Str) : Bool :=
  dir.key == (strtoupper name, strtoupper extension)

/-- The search of a directory of `n` more entries, from entry `i` on. -/
def scanFrom (buf : Buf) (name extension : Str) : ℕ → ℕ → Option ℕ
  | 0, _ => none
  | n + 1, i =>
    if (entryAt buf i).isEnd then none
    else if (entryAt buf i).isDeleted then scanFrom buf name extension n (i + 1)
    else if fatEntryMatchesFilename (entryAt buf i) name extension then some i
    else scanFrom buf name extension n (i + 1)

/-- What the search for a free entry meets first. -/
inductive Slot where
  | taken
  | free (i : ℕ)
  | full
  deriving DecidableEq

/-- `memcmp` of the 11 name bytes. -/
def sameName (dir dir' : Raw) : Bool := (List.range 11).all fun j => dir j == dir' j

/-- The search for a free entry, which is also the check that the name is not there. -/
def placeFrom (buf : Buf) (dir : Raw) : ℕ → ℕ → Slot
  | 0, _ => .full
  | n + 1, i =>
    if sameName (entryAt buf i) dir then .taken
    else if (entryAt buf i).isEnd then .free i
    else placeFrom buf dir n (i + 1)

/-- Where a directory is: its address and its size in bytes. -/
structure Region where
  addr : ℕ
  size : ℕ
  deriving DecidableEq

namespace Geom

variable (g : Geom)

def rootRegion : Region := ⟨g.rootAddr, 32 * g.noRootEntries⟩

def clusterRegion (c : ℕ) : Region := ⟨g.clusterAddr c, g.clusterSize⟩

end Geom

namespace Region

variable (r : Region)

def entries : ℕ := r.size / 32

/-- The contents of a directory. -/
def buf (disk : ℕ → UInt8) : Buf := fun i => disk (r.addr + i)

/-- Entry `i` is in use: before the end mark and not deleted. -/
def Live (disk : ℕ → UInt8) (i : ℕ) : Prop :=
  i < r.entries ∧ (∀ j ≤ i, (entryAt (r.buf disk) j).isEnd = false) ∧
    (entryAt (r.buf disk) i).isDeleted = false

instance (disk : ℕ → UInt8) : DecidablePred (r.Live disk) :=
  fun _ => inferInstanceAs (Decidable (_ ∧ _))

end Region

namespace Vol

variable (e : Env) (v : Vol)

def fatFindInRoot (filename extension : Str) : Vol × Option Raw :=
  let r := v.ataReadExact e e.geom.rootAddr
  match r.2 with
  | none => (r.1, none)
  | some rootBuf =>
    (r.1, (scanFrom rootBuf filename extension e.geom.noRootEntries 0).map (entryAt rootBuf))

/-- `..` is entry 1, whatever its name. -/
def fatFindInDir (clusterNo : ℕ) (filename extension : Str) : Vol × Option Raw :=
  let r := v.ataReadExact e (e.geom.clusterAddr clusterNo)
  match r.2 with
  | none => (r.1, none)
  | some dirBuf =>
    if filename.take 2 = [dot, dot] then (r.1, some (entryAt dirBuf 1))
    else (r.1,
      (scanFrom dirBuf filename extension (e.geom.clusterSize / 32) 0).map (entryAt dirBuf))

/-- Where the code that updates a directory looks for it: cluster 0 stands for the root. -/
def dirRegion (g : Geom) (clusterNo : ℕ) : Region :=
  if clusterNo = 0 then g.rootRegion else g.clusterRegion clusterNo

/-- Entry `i` of a directory read into `dirBuf` is replaced and the whole directory written back. -/
def storeEntry (r : Region) (dirBuf : Buf) (i : ℕ) (dir : Raw) : Vol × Bool :=
  v.ataWriteExact e r.addr (setEntry dirBuf i dir) r.size

def fatUpdateInDir (clusterNo : ℕ) (filename extension : Str) (dir : Raw) : Vol × Bool :=
  let region := dirRegion e.geom clusterNo
  let r := v.ataReadExact e region.addr
  match r.2 with
  | none => (r.1, false)
  | some dirBuf =>
    match scanFrom dirBuf filename extension region.entries 0 with
    | none => (r.1, false)
    | some i => r.1.storeEntry e region dirBuf i dir

end Vol

end X86Kernel.Fat
