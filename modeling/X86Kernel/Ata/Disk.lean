import Mathlib.Tactic

/-! The ATA driver: sector transfers within the partition, and the byte-addressed reads and writes
over them. -/
namespace X86Kernel.Ata

abbrev Buf := ℕ → UInt8

def sectorSize : ℕ := 512

def maxSectors : ℕ := 256

/-- The drive and the partition in use; `partitionSectors` is 0 for the whole disk. `io` tells which
commands fail (`some k`: after `k` sectors), `heap` whether there is memory for a buffer. -/
structure Drive where
  capacity : ℕ
  baseLba : ℕ
  partitionSectors : ℕ
  io : ℕ → Option ℕ
  heap : ℕ → Bool

namespace Drive

variable (d : Drive)

/-- In sectors. -/
def size : ℕ := if d.partitionSectors = 0 then d.capacity else d.partitionSectors

/-- The partition is a part of a disk that 28 bits address. -/
structure Ok : Prop where
  capacity : d.capacity ≤ 2 ^ 28
  partition : d.baseLba + d.size ≤ d.capacity
  whole : d.partitionSectors = 0 → d.baseLba = 0

/-- The sectors that command `n` can transfer from `number` on. -/
def good (n number : ℕ) : ℕ :=
  match d.io n with
  | none => d.capacity - number
  | some k => min k (d.capacity - number)

end Drive

/-- The bytes on the disk, the commands so far, and the numbers of the sectors they transferred. -/
structure Disk where
  bytes : ℕ → UInt8
  clock : ℕ
  sent : List ℕ

/-- `n` bytes of `buf` stored from `a` on. -/
def store (bytes : ℕ → UInt8) (a : ℕ) (buf : Buf) (n : ℕ) : ℕ → UInt8 :=
  fun x => if a ≤ x ∧ x < a + n then buf (x - a) else bytes x

/-- What the drive makes of the 8-bit count. -/
def driveCount (reg : ℕ) : ℕ := if reg = 0 then 256 else reg

namespace Disk

variable (d : Drive) (s : Disk)

/-- `ata_readwrite`: the disk and the buffer afterwards, and whether it succeeded. -/
def ataReadwrite (lba : ℕ) (buf : Buf) (sectors : ℕ) (write : Bool) : Disk × Buf × Bool :=
  if d.partitionSectors ≠ 0 ∧ d.partitionSectors < (lba + sectors) % 2 ^ 32 then (s, buf, false)
  else if sectors = 0 ∨ maxSectors < sectors then (s, buf, false)
  else
    let number := (lba + d.baseLba) % 2 ^ 32 % 2 ^ 28
    let done := min sectors (min (driveCount (sectors % 2 ^ 8)) (d.good s.clock number))
    let ok : Bool := d.io s.clock = none ∧ done = sectors
    let s' : Disk :=
      { s with clock := s.clock + 1, sent := s.sent ++ (List.range done).map (number + ·) }
    if write then
      ({ s' with bytes := store s.bytes (sectorSize * number) buf (sectorSize * done) }, buf, ok)
    else (s', fun k => if k < sectorSize * done then s.bytes (sectorSize * number + k)
      else buf k, ok)

/-- The loop of `ata_read_exact_into` from sector `i` on; `n` bounds its turns. -/
def readChunks (startSector sectorCount : ℕ) : ℕ → ℕ → Buf → Disk → Disk × Option Buf
  | 0, _, readBuf, s => (s, some readBuf)
  | n + 1, i, readBuf, s =>
    if i < sectorCount then
      let sectorsToRead := if sectorCount < i + maxSectors then sectorCount - i else maxSectors
      let r := s.ataReadwrite d (startSector + i)
        (fun k => readBuf (sectorSize * i + k)) sectorsToRead false
      if r.2.2 then
        readChunks startSector sectorCount n (i + maxSectors)
          (fun x => if sectorSize * i ≤ x then r.2.1 (x - sectorSize * i) else readBuf x) r.1
      else (r.1, none)
    else (s, some readBuf)

/-- The read goes through a buffer of its own: neither within one sector nor of whole sectors, few
enough. -/
def buffered (addr bytes : ℕ) : Bool :=
  !((((addr + bytes) % 2 ^ 32 + 511) % 2 ^ 32 / 512 + 2 ^ 32 - addr / 512) % 2 ^ 32 = 1 ∨
    (addr % 512 = 0 ∧ bytes % sectorSize = 0 ∧ bytes / sectorSize ≤ maxSectors))

/-- `ata_read_exact_into`; what the buffer holds before does not matter. -/
def ataReadExactInto (addr bytes : ℕ) : Disk × Option Buf :=
  if bytes = 0 then (s, some fun _ => 0)
  else
    let startSector := addr / 512
    let offset := addr % 512
    let endAddr := (addr + bytes) % 2 ^ 32
    let endSector := (endAddr + 511) % 2 ^ 32 / 512
    let sectorCount := (endSector + 2 ^ 32 - startSector) % 2 ^ 32
    if sectorCount = 1 then
      let r := s.ataReadwrite d startSector (fun _ => 0) 1 false
      (r.1, if r.2.2 then some fun k => r.2.1 (offset + k) else none)
    else if offset = 0 ∧ bytes % sectorSize = 0 ∧ bytes / sectorSize ≤ maxSectors then
      let r := s.ataReadwrite d startSector (fun _ => 0) (bytes / sectorSize % 2 ^ 16) false
      (r.1, if r.2.2 then some r.2.1 else none)
    else if !d.heap s.clock then (s, none)
    else
      let r := readChunks d startSector sectorCount sectorCount 0 (fun _ => 0) s
      (r.1, r.2.map fun readBuf k => readBuf (offset + k))

/-- The loop of `ata_write_exact` from sector `i` on; `n` bounds its turns. -/
def writeChunks (startSector sectorCount : ℕ) (buf : Buf) : ℕ → ℕ → Disk → Disk × Bool
  | 0, _, s => (s, true)
  | n + 1, i, s =>
    if i < sectorCount then
      let sectorsToWrite := if sectorCount < i + maxSectors then sectorCount - i else maxSectors
      let r := s.ataReadwrite d (startSector + i)
        (fun k => buf (sectorSize * i + k)) sectorsToWrite true
      if r.2.2 then writeChunks startSector sectorCount buf n (i + maxSectors) r.1 else (r.1, false)
    else (s, true)

def ataWriteExact (addr : ℕ) (buf : Buf) (size : ℤ) : Disk × Bool :=
  if size < 0 then (s, false)
  else if size = 0 then (s, true)
  else if size.toNat % sectorSize ≠ 0 then (s, false)
  else if addr % sectorSize ≠ 0 then (s, false)
  else writeChunks d (addr / sectorSize) (size.toNat / sectorSize) buf (size.toNat / sectorSize) 0 s

/-! ### One command -/

variable {d : Drive} {s : Disk}

/-- The sectors are in the partition. -/
def Inside (d : Drive) (l : List ℕ) : Prop := ∀ n ∈ l, d.baseLba ≤ n ∧ n < d.baseLba + d.size

theorem driveCount_mod {sectors : ℕ} (hpos : 0 < sectors) (hmax : sectors ≤ maxSectors) :
    driveCount (sectors % 2 ^ 8) = sectors := by
  unfold maxSectors at hmax
  unfold driveCount
  split_ifs <;> omega

theorem good_le (d : Drive) (n number : ℕ) : d.good n number ≤ d.capacity - number := by
  unfold Drive.good
  split
  · exact le_refl _
  · exact Nat.min_le_right _ _

/-- A command transfers sectors of the partition, all of them if it succeeds. -/
theorem ataReadwrite_spec (hd : d.Ok) {lba sectors : ℕ} (buf : Buf) (write : Bool)
    (h : lba + sectors ≤ 2 ^ 23) (hpos : 0 < sectors) (hmax : sectors ≤ maxSectors) :
    ∃ done ≤ sectors, (done = 0 ∨ lba + done ≤ d.size) ∧
      (s.ataReadwrite d lba buf sectors write).1.sent =
        s.sent ++ (List.range done).map (d.baseLba + lba + ·) ∧
      (s.ataReadwrite d lba buf sectors write).1.bytes =
        (if write then store s.bytes (sectorSize * (d.baseLba + lba)) buf (sectorSize * done)
          else s.bytes) ∧
      (write = false → ∀ k < sectorSize * done,
        (s.ataReadwrite d lba buf sectors write).2.1 k =
        s.bytes (sectorSize * (d.baseLba + lba) + k)) ∧
      ((s.ataReadwrite d lba buf sectors write).2.2 = true → done = sectors) ∧
      (lba + sectors ≤ d.size → d.io s.clock = none →
        (s.ataReadwrite d lba buf sectors write).2.2 = true) := by
  have hstore : store s.bytes (sectorSize * (d.baseLba + lba)) buf (sectorSize * 0) = s.bytes := by
    funext x
    exact if_neg (by omega)
  unfold ataReadwrite
  by_cases hcheck : d.partitionSectors ≠ 0 ∧ d.partitionSectors < (lba + sectors) % 2 ^ 32
  · rw [if_pos hcheck]
    refine ⟨0, Nat.zero_le _, .inl rfl, by simp, ?_, fun _ k hk => absurd hk (by omega),
      fun hok => absurd hok Bool.false_ne_true,
      fun hle _ => ?_⟩
    · rw [hstore, ite_self]
    · have hsize : d.size = d.partitionSectors := if_neg hcheck.1
      omega
  rw [if_neg hcheck, if_neg (by omega)]
  have hfits : d.partitionSectors = 0 ∧ d.baseLba = 0 ∧ d.size = d.capacity ∨
      d.size = d.partitionSectors ∧ lba + sectors ≤ d.size := by
    by_cases hwhole : d.partitionSectors = 0
    · exact .inl ⟨hwhole, hd.whole hwhole, if_pos hwhole⟩
    · have hsize : d.size = d.partitionSectors := if_neg hwhole
      exact .inr ⟨hsize, by omega⟩
  have hcap := hd.capacity
  have hpart := hd.partition
  have hnumber : (lba + d.baseLba) % 2 ^ 32 % 2 ^ 28 = d.baseLba + lba := by omega
  have hgood := good_le d s.clock (d.baseLba + lba)
  dsimp only
  rw [hnumber, driveCount_mod hpos hmax]
  refine ⟨min sectors (min sectors (d.good s.clock (d.baseLba + lba))), Nat.min_le_left _ _, ?_, ?_,
    ?_, ?_, ?_, ?_⟩
  · omega
  · split <;> rfl
  · split <;> rfl
  · rintro hwrite k hk
    rw [if_neg (by rw [hwrite]; exact Bool.false_ne_true)]
    exact if_pos hk
  · intro hok
    split at hok
    · exact (of_decide_eq_true hok).2
    · exact (of_decide_eq_true hok).2
  · intro hle hio
    have hall : d.good s.clock (d.baseLba + lba) = d.capacity - (d.baseLba + lba) := by
      unfold Drive.good
      rw [hio]
    have hdone : d.io s.clock = none ∧
        min sectors (min sectors (d.good s.clock (d.baseLba + lba))) = sectors :=
      ⟨hio, by omega⟩
    split
    · exact decide_eq_true hdone
    · exact decide_eq_true hdone

theorem inside_range (d : Drive) {lba done : ℕ} (h : done = 0 ∨ lba + done ≤ d.size) :
    Inside d ((List.range done).map (d.baseLba + lba + ·)) := by
  intro n hn
  obtain ⟨k, hk, rfl⟩ := List.mem_map.mp hn
  have := List.mem_range.mp hk
  omega

/-! ### The loops -/

/-- The sectors of one turn. -/
theorem chunk_bounds {i sectorCount : ℕ} (hi : i < sectorCount) :
    0 < (if sectorCount < i + maxSectors then sectorCount - i else maxSectors) ∧
      (if sectorCount < i + maxSectors then sectorCount - i else maxSectors) ≤ maxSectors ∧
      i + (if sectorCount < i + maxSectors then sectorCount - i else maxSectors) ≤ sectorCount ∧
      (i + (if sectorCount < i + maxSectors then sectorCount - i else maxSectors) = sectorCount ∨
        i + maxSectors = i + (if sectorCount < i + maxSectors then sectorCount - i
          else maxSectors)) := by
  unfold maxSectors
  split_ifs <;> omega

theorem readChunks_spec (hd : d.Ok) {startSector sectorCount : ℕ}
    (h : startSector + sectorCount ≤ 2 ^ 23) (n : ℕ) :
    ∀ {i : ℕ} (readBuf : Buf) {s : Disk}, sectorCount ≤ i + maxSectors * n →
    (∃ l, Inside d l ∧ (readChunks d startSector sectorCount n i readBuf s).1.sent = s.sent ++ l) ∧
    (readChunks d startSector sectorCount n i readBuf s).1.bytes = s.bytes ∧
    (∀ buf, (readChunks d startSector sectorCount n i readBuf s).2 = some buf →
      (∀ x < sectorSize * i, buf x = readBuf x) ∧
      (∀ x, sectorSize * i ≤ x → x < sectorSize * sectorCount →
        buf x = s.bytes (sectorSize * (d.baseLba + startSector) + x)) ∧
      (i < sectorCount → startSector + sectorCount ≤ d.size)) ∧
    (startSector + sectorCount ≤ d.size → (∀ n, d.io n = none) →
      (readChunks d startSector sectorCount n i readBuf s).2.isSome = true) := by
  induction n with
  | zero =>
    intro i readBuf s hn
    refine ⟨⟨[], fun _ hm => absurd hm List.not_mem_nil, (List.append_nil _).symm⟩, rfl,
      fun buf hbuf => ?_, fun _ _ => rfl⟩
    obtain rfl := Option.some.inj hbuf
    exact ⟨fun _ _ => rfl, fun x h1 h2 => absurd h2 (by unfold sectorSize at *; omega),
      fun hi => absurd hi (by omega)⟩
  | succ n ih =>
    intro i readBuf s hn
    rw [readChunks]
    by_cases hi : i < sectorCount
    · rw [if_pos hi]
      obtain ⟨hpos, hmax, hle, hend⟩ := chunk_bounds hi
      dsimp only
      generalize (if sectorCount < i + maxSectors then sectorCount - i else maxSectors) = count
        at hpos hmax hle hend ⊢
      obtain ⟨done, hdone, hin, hsent, hbytes, hread, hok, hall⟩ := ataReadwrite_spec (s := s) hd
        (fun k => readBuf (sectorSize * i + k)) false
          (show startSector + i + count ≤ 2 ^ 23 by omega) hpos hmax
      generalize s.ataReadwrite d (startSector + i)
        (fun k => readBuf (sectorSize * i + k)) count false = r
        at hsent hbytes hread hok hall ⊢
      have hinside := inside_range d hin
      rw [if_neg Bool.false_ne_true] at hbytes
      cases hr : r.2.2 with
      | false =>
        rw [if_neg Bool.false_ne_true]
        refine ⟨⟨_, hinside, hsent⟩, hbytes,
          fun buf hbuf => (Option.some_ne_none buf hbuf.symm).elim, fun hfits hio => ?_⟩
        have := hall (by omega) (hio s.clock)
        rw [hr] at this
        cases this
      | true =>
        rw [if_pos rfl]
        obtain rfl := hok hr
        obtain ⟨⟨l, hl, hsent'⟩, hbytes', hbuf', hsome⟩ := ih (i := i + maxSectors)
          (fun x => if sectorSize * i ≤ x then r.2.1 (x - sectorSize * i) else readBuf x) (s := r.1)
          (by rw [Nat.mul_succ] at hn; omega)
        refine ⟨⟨_, fun m hm => ?_, by rw [hsent', hsent, List.append_assoc]⟩, hbytes'.trans hbytes,
          fun buf hbuf => ?_,
          fun hfits hio => hsome hfits hio⟩
        · rcases List.mem_append.mp hm with hm | hm
          · exact hinside m hm
          · exact hl m hm
        · obtain ⟨hlow, hhigh, hlast⟩ := hbuf' buf hbuf
          refine ⟨fun x hx => ?_, fun x h1 h2 => ?_, fun _ => ?_⟩
          · rw [hlow x (by unfold sectorSize at *; omega), if_neg (by omega)]
          · by_cases hx : x < sectorSize * (i + done)
            · rw [hlow x (by unfold sectorSize maxSectors at *; omega), if_pos h1,
                hread rfl _ (by unfold sectorSize at *; omega)]
              congr 1
              unfold sectorSize at *
              omega
            · rw [hhigh x (by unfold sectorSize at *; omega) h2, hbytes]
          · by_cases hmore : i + maxSectors < sectorCount
            · exact hlast hmore
            · omega
    · rw [if_neg hi]
      refine ⟨⟨[], fun _ hm => absurd hm List.not_mem_nil, (List.append_nil _).symm⟩, rfl,
        fun buf hbuf => ?_, fun _ _ => rfl⟩
      obtain rfl := Option.some.inj hbuf
      exact ⟨fun _ _ => rfl, fun x h1 h2 => absurd h2 (by unfold sectorSize at *; omega),
        fun hi' => absurd hi' hi⟩

/-- A read of some sectors in one command. -/
theorem readOnce_spec (hd : d.Ok) (s : Disk) (lba sectors : ℕ) (h : lba + sectors ≤ 2 ^ 23)
    (hpos : 0 < sectors) (hmax : sectors ≤ maxSectors) :
    (s.ataReadwrite d lba (fun _ => 0) sectors false).1.bytes = s.bytes ∧
    (∃ l, Inside d l ∧ (s.ataReadwrite d lba (fun _ => 0) sectors false).1.sent = s.sent ++ l) ∧
    ((s.ataReadwrite d lba (fun _ => 0) sectors false).2.2 = true →
      lba + sectors ≤ d.size ∧ ∀ k < sectorSize * sectors,
      (s.ataReadwrite d lba (fun _ => 0) sectors false).2.1 k =
      s.bytes (sectorSize * (d.baseLba + lba) + k)) ∧
    (lba + sectors ≤ d.size → (∀ n, d.io n = none) →
      (s.ataReadwrite d lba (fun _ => 0) sectors false).2.2 = true) := by
  obtain ⟨done, -, hin, hsent, hbytes, hread, hok, hall⟩ :=
    ataReadwrite_spec (s := s) hd (fun _ => 0) false h hpos hmax
  refine ⟨hbytes, ⟨_, inside_range d hin, hsent⟩, fun hr => ?_, fun hle hio => hall hle (hio _)⟩
  obtain rfl := hok hr
  exact ⟨hin.resolve_left hpos.ne', hread rfl⟩

/-- What each of the three ways to read does; it succeeds when `ready`. -/
structure Reads (d : Drive) (s : Disk) (addr bytes : ℕ) (ready : Prop)
    (r : Disk × Option Buf) : Prop where
  disk : r.1.bytes = s.bytes
  sectors : ∃ l, Inside d l ∧ r.1.sent = s.sent ++ l
  exact : ∀ buf, r.2 = some buf → addr + bytes ≤ sectorSize * d.size ∧
    ∀ k < bytes, buf k = s.bytes (sectorSize * d.baseLba + addr + k)
  succeeds : addr + bytes ≤ sectorSize * d.size → (∀ n, d.io n = none) → ready → r.2.isSome = true

theorem reads_single (hd : d.Ok) (s : Disk) {addr bytes : ℕ} (h : addr + bytes + 511 < 2 ^ 32)
    (hone : (addr + bytes + 511) / 512 - addr / 512 = 1) :
    Reads d s addr bytes True ((s.ataReadwrite d (addr / 512) (fun _ => 0) 1 false).1,
      if (s.ataReadwrite d (addr / 512) (fun _ => 0) 1 false).2.2 then
        some fun k => (s.ataReadwrite d (addr / 512) (fun _ => 0) 1 false).2.1 (addr % 512 + k)
        else none) := by
  obtain ⟨hbytes, hsent, hread, hall⟩ :=
    readOnce_spec hd s (addr / 512) 1 (by omega) Nat.one_pos (by decide)
  generalize s.ataReadwrite d (addr / 512) (fun _ => 0) 1 false = r at hbytes hsent hread hall ⊢
  unfold sectorSize at hread
  refine ⟨hbytes, hsent, fun buf hbuf => ?_, fun hle hio _ => ?_⟩
  · split_ifs at hbuf with hok
    obtain ⟨hfits, hread⟩ := hread hok
    obtain rfl := Option.some.inj hbuf
    unfold sectorSize
    refine ⟨by omega, fun k hk => (hread (addr % 512 + k) (by omega)).trans ?_⟩
    congr 1
    omega
  · unfold sectorSize at hle
    rw [if_pos (hall (by omega) hio)]
    rfl

theorem reads_direct (hd : d.Ok) (s : Disk) {addr bytes : ℕ} (h : addr + bytes + 511 < 2 ^ 32)
    (hpos : bytes ≠ 0)
    (ha : addr % 512 = 0) (hb : bytes % 512 = 0) (hmax : bytes / 512 ≤ maxSectors) :
    Reads d s addr bytes True ((s.ataReadwrite d (addr / 512) (fun _ => 0) (bytes / 512) false).1,
      if (s.ataReadwrite d (addr / 512) (fun _ => 0) (bytes / 512) false).2.2 then
        some (s.ataReadwrite d (addr / 512) (fun _ => 0) (bytes / 512) false).2.1 else none) := by
  obtain ⟨hbytes, hsent, hread, hall⟩ :=
    readOnce_spec hd s (addr / 512) (bytes / 512) (by omega) (by omega) hmax
  generalize s.ataReadwrite d (addr / 512) (fun _ => 0) (bytes / 512) false = r
    at hbytes hsent hread hall ⊢
  unfold sectorSize at hread
  refine ⟨hbytes, hsent, fun buf hbuf => ?_, fun hle hio _ => ?_⟩
  · split_ifs at hbuf with hok
    obtain ⟨hfits, hread⟩ := hread hok
    obtain rfl := Option.some.inj hbuf
    unfold sectorSize
    refine ⟨by omega, fun k hk => (hread k (by omega)).trans ?_⟩
    congr 1
    omega
  · unfold sectorSize at hle
    rw [if_pos (hall (by omega) hio)]
    rfl

theorem reads_chunks (hd : d.Ok) (s : Disk) {addr bytes sectorCount : ℕ}
    (h : addr + bytes + 511 < 2 ^ 32) (hpos : bytes ≠ 0)
    (hcount : sectorCount = (addr + bytes + 511) / 512 - addr / 512) :
    Reads d s addr bytes True
      ((readChunks d (addr / 512) sectorCount sectorCount 0 (fun _ => 0) s).1,
      (readChunks d (addr / 512) sectorCount sectorCount 0 (fun _ => 0) s).2.map fun readBuf k =>
        readBuf (addr % 512 + k)) := by
  obtain ⟨hsent, hbytes, hread, hall⟩ :=
    readChunks_spec hd (show addr / 512 + sectorCount ≤ 2 ^ 23 by omega) sectorCount (i := 0)
    (fun _ => 0) (s := s) (by unfold maxSectors; omega)
  generalize readChunks d (addr / 512) sectorCount sectorCount 0 (fun _ => 0) s = r
    at hsent hbytes hread hall ⊢
  unfold sectorSize at hread
  refine ⟨hbytes, hsent, fun buf hbuf => ?_, fun hle hio _ => ?_⟩
  · obtain ⟨readBuf, hr, rfl⟩ := Option.map_eq_some_iff.mp hbuf
    obtain ⟨-, hread, hfits⟩ := hread readBuf hr
    have hfits := hfits (by omega)
    unfold sectorSize
    refine ⟨by omega, fun k hk => (hread (addr % 512 + k) (by omega) (by omega)).trans ?_⟩
    congr 1
    omega
  · unfold sectorSize at hle
    rw [Option.isSome_map]
    exact hall (by omega) hio

theorem Reads.weaken {addr bytes : ℕ} {ready ready' : Prop} {r : Disk × Option Buf}
    (h : Reads d s addr bytes ready r) (hready : ready' → ready) : Reads d s addr bytes ready' r :=
  ⟨h.disk, h.sectors, h.exact, fun hle hio hr => h.succeeds hle hio (hready hr)⟩

theorem reads (hd : d.Ok) (s : Disk) {addr bytes : ℕ} (h : addr + bytes + 511 < 2 ^ 32)
    (hpos : bytes ≠ 0) :
    Reads d s addr bytes (buffered addr bytes = true → d.heap s.clock = true)
      (s.ataReadExactInto d addr bytes) := by
  have hcount : (((addr + bytes) % 2 ^ 32 + 511) % 2 ^ 32 / 512 + 2 ^ 32 - addr / 512) % 2 ^ 32 =
      (addr + bytes + 511) / 512 - addr / 512 := by omega
  unfold ataReadExactInto buffered
  rw [if_neg hpos]
  dsimp only
  rw [hcount]
  generalize hsectors : (addr + bytes + 511) / 512 - addr / 512 = sectorCount
  by_cases hone : sectorCount = 1
  · rw [if_pos hone]
    exact (reads_single hd s h (hsectors.trans hone)).weaken fun _ => trivial
  rw [if_neg hone]
  by_cases hdirect : addr % 512 = 0 ∧ bytes % sectorSize = 0 ∧ bytes / sectorSize ≤ maxSectors
  · have hmod : bytes / sectorSize % 2 ^ 16 = bytes / 512 := by
      have := hdirect.2.2
      unfold sectorSize maxSectors at *
      omega
    rw [if_pos hdirect, hmod]
    exact (reads_direct hd s h hpos hdirect.1 hdirect.2.1 hdirect.2.2).weaken fun _ => trivial
  rw [if_neg hdirect]
  cases hheap : d.heap s.clock with
  | false =>
    rw [if_pos (by decide)]
    refine ⟨rfl, ⟨[], fun _ hm => absurd hm List.not_mem_nil, (List.append_nil _).symm⟩,
      fun buf hbuf => (Option.some_ne_none buf hbuf.symm).elim, fun _ _ hneed => ?_⟩
    exact absurd (hneed (by simp [hone, hdirect])) Bool.false_ne_true
  | true =>
    rw [if_neg (by decide)]
    exact (reads_chunks hd s h hpos hsectors.symm).weaken fun _ => trivial

end Disk

end X86Kernel.Ata
