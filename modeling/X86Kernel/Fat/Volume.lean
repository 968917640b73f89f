import Mathlib.Tactic

/-! The FAT16 volume: its geometry, the disk with transfers that may fail, and the cached table. -/
namespace X86Kernel.Fat

/-- Bytes read from the disk, or about to be written to it. -/
abbrev Buf := ℕ → UInt8

def ataSectorSize : ℕ := 512

def baseAddr : ℕ := 512000

/-- The fields of `fat_bpb_t` that `fat_get_info` reads; `noSectors` is the one of the two sector
counts that is used. -/
structure Geom where
  bytesPerSector : ℕ
  sectorsPerCluster : ℕ
  noReservedSectors : ℕ
  noTables : ℕ
  noRootEntries : ℕ
  sectorsPerFat : ℕ
  noSectors : ℕ

namespace Geom

variable (g : Geom)

/-- In sectors. -/
def rootSize : ℕ := (g.noRootEntries * 32 + (g.bytesPerSector - 1)) / g.bytesPerSector

def rootSector : ℕ := g.noReservedSectors + g.noTables * g.sectorsPerFat

def firstDataSector : ℕ := g.rootSector + g.rootSize

def tableSize : ℕ := g.sectorsPerFat * g.bytesPerSector

/-- The count of clusters, computed in 32 bits, is clamped to what the table holds. -/
def noClusters : ℕ :=
  min (((g.noSectors - g.firstDataSector) / g.sectorsPerCluster + 2) % 2 ^ 32) (g.tableSize / 2)

def clusterSize : ℕ := g.sectorsPerCluster * g.bytesPerSector

/-- Addresses are computed in 32 bits. -/
def clusterAddr (c : ℕ) : ℕ :=
  (baseAddr + ((((c : ℤ) - 2) * g.sectorsPerCluster + g.firstDataSector) % 2 ^ 32).toNat *
    g.bytesPerSector) % 2 ^ 32

def rootAddr : ℕ := (g.rootSector * g.bytesPerSector + baseAddr) % 2 ^ 32

def fatTableAddr (table : ℕ) : ℕ :=
  (baseAddr + g.noReservedSectors * g.bytesPerSector +
    table * g.sectorsPerFat * g.bytesPerSector) % 2 ^ 32

end Geom

/-- What a run meets: the geometry, which transfers fail (`some k`: after `k` sectors of a write),
what uninitialised memory holds, and whether there is memory for a buffer. -/
structure Env where
  geom : Geom
  io : ℕ → Option ℕ
  junk : ℕ → ℕ → UInt8
  heap : ℕ → Bool

/-- The disk, the table cached from it with its dirty marks, and how many transfers there were. -/
structure Vol where
  disk : ℕ → UInt8
  table : ℕ → ℕ
  dirty : ℕ → Bool
  clock : ℕ

/-- `n` bytes of `buf` stored from address `a` on. -/
def blit (disk : ℕ → UInt8) (a : ℕ) (buf : Buf) (n : ℕ) : ℕ → UInt8 :=
  fun x => if a ≤ x ∧ x < a + n then buf (x - a) else disk x

namespace Vol

variable (e : Env) (v : Vol)

def tick : Vol := { v with clock := v.clock + 1 }

def ataReadExact (addr : ℕ) : Vol × Option Buf :=
  (v.tick, if e.io v.clock = none then some fun i => v.disk (addr + i) else none)

def ataWriteExact (addr : ℕ) (buf : Buf) (size : ℕ) : Vol × Bool :=
  if size = 0 then (v, true)
  else if size % ataSectorSize ≠ 0 ∨ addr % ataSectorSize ≠ 0 then (v, false)
  else
    match e.io v.clock with
    | none => ({ v.tick with disk := blit v.disk addr buf size }, true)
    | some k => ({ v.tick with disk := blit v.disk addr buf (min (k * ataSectorSize) size) }, false)

/-- End of chain, bad cluster, out of bounds. -/
def fatValidCluster (g : Geom) (cluster : ℕ) : Bool :=
  !(decide (0xFFF8 ≤ cluster) || decide (cluster = 0xFFF7) || decide (cluster < 2) || decide
    (g.noClusters ≤ cluster))

def fatTableUpdateCluster (g : Geom) (clusterNo value : ℕ) : Vol × Bool :=
  if g.noClusters ≤ clusterNo ∨ g.tableSize / 2 ≤ clusterNo then (v, false)
  else
    ({ v with
        dirty := Function.update v.dirty clusterNo true
        table := Function.update v.table clusterNo value }, true)

/-- Byte `k` of the cached table, whose entries are stored low byte first. -/
def tableByte (k : ℕ) : UInt8 :=
  UInt8.ofNat (if k % 2 = 0 then v.table (k / 2) % 256 else v.table (k / 2) / 256 % 256)

/-- `fat_table_flush_write`, from table `i` on. -/
def fatTableFlushWrite (firstSector count : ℕ) : ℕ → ℕ → Bool → Vol → Vol × Bool
  | 0, _, ok, v => (v, ok)
  | n + 1, i, ok, v =>
    let r := v.ataWriteExact e (e.geom.fatTableAddr i + firstSector * ataSectorSize)
      (fun k => v.tableByte (firstSector * ataSectorSize + k)) (count * ataSectorSize)
    fatTableFlushWrite firstSector count n (i + 1) (ok && r.2) r.1

def flushRun (firstSector count : ℕ) (v : Vol) : Vol × Bool :=
  fatTableFlushWrite e firstSector count e.geom.noTables 0 true v

def perSector : ℕ := ataSectorSize / 2

/-- The entries of one sector of the table: whether one is dirty, and none left so. -/
def cleanSector (g : Geom) (sector : ℕ) : Vol × Bool :=
  let upTo := min ((sector + 1) * perSector) (g.tableSize / 2)
  ({ v with dirty := fun c => if sector * perSector ≤ c ∧ c < upTo then false else v.dirty c },
    (List.range (upTo - sector * perSector)).any fun i => v.dirty (sector * perSector + i))

/-- The loop of `fat_table_flush_cache`: dirty sectors that follow each other are written
together. -/
def flushSectors : ℕ → ℕ → ℕ → ℕ → Bool → Vol → Vol × Bool
  | 0, _, runStart, runLen, ok, v =>
    if 0 < runLen then ((flushRun e runStart runLen v).1, ok && (flushRun e runStart runLen v).2)
    else (v, ok)
  | n + 1, sector, runStart, runLen, ok, v =>
    let r := v.cleanSector e.geom sector
    if r.2 then
    flushSectors n (sector + 1) (if runLen = 0 then sector else runStart) (runLen + 1) ok r.1
    else if 0 < runLen then
      let w := flushRun e runStart runLen r.1
      flushSectors n (sector + 1) runStart 0 (ok && w.2) w.1
    else flushSectors n (sector + 1) runStart 0 ok r.1

def fatTableFlushCache (start stop : ℕ) : Vol × Bool :=
  let entries := e.geom.tableSize / 2
  if entries ≤ start then (v, true)
  else
    let stop := if entries ≤ stop then entries - 1 else stop
    flushSectors e (stop / perSector + 1 - start / perSector) (start / perSector) 0 0 true v

def fatFreeClusters (g : Geom) : ℕ :=
  ((List.range g.noClusters).filter fun i => 2 ≤ i && v.table i == 0).length

/-- The search for a free cluster in a 16-bit counter: the first one that is free or out of bounds.
`none` if the counter goes round for ever. -/
def freeSearch (g : Geom) (table : ℕ → ℕ) : ℕ → ℕ → Option ℕ
  | 0, _ => none
  | n + 1, c =>
    if g.noClusters ≤ c ∨ table c = 0 then some c else freeSearch g table n ((c + 1) % 2 ^ 16)

/-- The free cluster that is found from `start` on. -/
def findFree (g : Geom) (start : ℕ) : Option ℕ :=
  match freeSearch g v.table (2 ^ 16) start with
  | none => none
  | some c => if g.noClusters ≤ c then none else some c

/-- A chain being freed: the lowest and the highest cluster met, how many there were, and whether
every update of the table succeeded. -/
structure Freeing where
  vol : Vol
  lo : ℕ
  hi : ℕ
  freed : ℕ
  ok : Bool

def freeChain (g : Geom) : ℕ → ℕ → Freeing → Freeing
  | 0, _, f => f
  | n + 1, cur, f =>
    if fatValidCluster g cur then
      let r := f.vol.fatTableUpdateCluster g cur 0
      freeChain g n (f.vol.table cur) ⟨r.1, min f.lo cur, max f.hi cur, f.freed + 1, f.ok && r.2⟩
    else f

/-- The whole chain from `cur` on. -/
def freeFrom (g : Geom) (cur lo : ℕ) (ok : Bool) : Freeing :=
  freeChain g (g.noClusters + 1) cur ⟨v, lo, lo, 0, ok⟩

end Vol

end X86Kernel.Fat
