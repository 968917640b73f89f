import X86Kernel.Ata.Disk

/-! The partition the driver works in: the checks of the GPT and of the MBR. -/
namespace X86Kernel.Ata

/-- `ata_base_lba` and `ata_partition_sectors`. -/
structure Part where
  baseLba : ℕ
  partitionSectors : ℕ
  deriving DecidableEq

/-- Before a partition is looked for. -/
def Part.boot : Part := ⟨0, 0⟩

/-- `n` bytes at an offset as a number, the low byte first. -/
def leAt (b : Buf) (offset : ℕ) : ℕ → ℕ
  | 0 => 0
  | n + 1 => (b offset).toNat + 256 * leAt b (offset + 1) n

def bytesAt (b : Buf) (offset n : ℕ) : List UInt8 := (List.range n).map fun k => b (offset + k)

/-- `EFI PART`. -/
def gptMagic : List UInt8 := [0x45, 0x46, 0x49, 0x20, 0x50, 0x41, 0x52, 0x54]

/-- `GPT_TYPE_GUID`, as it lies in memory. -/
def gptTypeGuid : List UInt8 :=
  [0x2E, 0xEB, 0x59, 0xBE, 0xC0, 0x91, 0x56, 0x4F, 0x8F, 0xEF, 0x11, 0x9A, 0x41, 0xDA, 0x9F, 0xAA]

/-- `sizeof(gpt_entry_t)`. -/
def gptEntrySize : ℕ := 128

/-- The loop of `ata_check_gpt` over `n` more entries: the partition it accepts, and at which
offsets of the sector buffer it looked at entries. `entrySector k` is what the read of the `k`th
sector of entries gives. -/
def gptScan (entrySector : ℕ → Option Buf) (entrySize : ℕ) : ℕ → ℕ → Buf → Option Part × List ℕ
  | 0, _, _ => (none, [])
  | n + 1, i, sector =>
    let perSector := 512 / entrySize
    match if i % perSector = 0 then entrySector (i / perSector) else some sector with
    | none => (none, [])
    | some sector =>
      let entry := i % perSector * entrySize
      let startingLba := leAt sector (entry + 32) 8
      let endingLba := leAt sector (entry + 40) 8
      let r :=
        if bytesAt sector entry 16 ≠ gptTypeGuid then gptScan entrySector entrySize n (i + 1) sector
        else if endingLba < startingLba then (none, [])
        else if 2 ^ 28 ≤ endingLba then (none, [])
        else (some ⟨startingLba % 2 ^ 32, (endingLba - startingLba + 1) % 2 ^ 32⟩, [])
      (r.1, entry :: r.2)

/-- `ata_check_gpt`, from what the read of sector 1 gives. A count of 2^31 or more is negative as an
`int`. -/
def ataCheckGpt (sector1 : Option Buf) (entrySector : ℕ → Option Buf) : Option Part × List ℕ :=
  match sector1 with
  | none => (none, [])
  | some s =>
    if bytesAt s 0 8 ≠ gptMagic then (none, [])
    else
      let startLba := leAt s 0x48 4
      let count := leAt s 0x50 4
      let entrySize := leAt s 0x54 4
      if entrySize < gptEntrySize ∨ 512 % entrySize ≠ 0 ∨ 2 ^ 28 ≤ startLba then (none, [])
      else if 2 ^ 31 ≤ count then (none, [])
      else if 128 < count then (none, [])
      else gptScan entrySector entrySize count 0 s

/-- The loop of `ata_check_mbr`: `none` is failure, `some true` an entry that was accepted, `some
false` an empty table. -/
def mbrScan (m : Buf) : List ℕ → Bool → Part → Part × Option Bool
  | [], anyEntries, p => (p, if anyEntries then none else some false)
  | i :: rest, anyEntries, p =>
    let e := 0x1BE + i * 16
    if m (e + 4) = 0 then mbrScan m rest anyEntries p
    else if m (e + 4) ≠ 0x7F then mbrScan m rest true p
    else
      let startingLba := leAt m (e + 0x08) 4
      let sectors := leAt m (e + 0x0C) 4
      if sectors = 0 ∨ 2 ^ 28 < (startingLba + sectors) % 2 ^ 32 then (p, none)
      else (⟨startingLba, sectors⟩, some true)

def mbrMagic (m : Buf) : Bool := m 510 = 0x55 ∧ m 511 = 0xAA

/-- `ata_check_mbr`, from what the read of sector 0 gives. -/
def ataCheckMbr (sector0 : Option Buf) (p : Part) : Part × Option Bool :=
  let p := { p with baseLba := 0 }
  match sector0 with
  | none => (p, none)
  | some m => if mbrMagic m then mbrScan m [0, 1, 2, 3] false p else (p, none)

/-- A partition whose sectors all have numbers of 28 bits. -/
def Part.Usable (p : Part) : Prop :=
  1 ≤ p.partitionSectors ∧ p.baseLba + p.partitionSectors ≤ 2 ^ 28

/-- What the two checks leave behind. -/
structure ChecksRight (sector0 sector1 : Option Buf) (entrySector : ℕ → Option Buf)
    (p : Part) : Prop where
  gpt : ∀ q, (ataCheckGpt sector1 entrySector).1 = some q → q.Usable
  scan : (ataCheckGpt sector1 entrySector).2.length ≤ 128 ∧
    ∀ entry ∈ (ataCheckGpt sector1 entrySector).2, entry + gptEntrySize ≤ 512
  mbr : (ataCheckMbr sector0 p).2 = some true → (ataCheckMbr sector0 p).1.Usable
  kept : (ataCheckGpt sector1 entrySector).1 = none → (ataCheckMbr sector0 p).2 ≠ some true →
    (ataCheckMbr sector0 p).1 = p

/-- The entry of the MBR that decides: the first one of the type looked for. -/
def mbrEntry (m : Buf) : Option ℕ := [0, 1, 2, 3].find? fun i => m (0x1BE + i * 16 + 4) == 0x7F

/-- Its end is no number of 32 bits, and what is left of it passes the check. -/
def MbrWraps (m : Buf) : Prop :=
  ∃ i, mbrEntry m = some i ∧ leAt m (0x1BE + i * 16 + 0x0C) 4 ≠ 0 ∧
    2 ^ 32 ≤ leAt m (0x1BE + i * 16 + 0x08) 4 + leAt m (0x1BE + i * 16 + 0x0C) 4 ∧
    leAt m (0x1BE + i * 16 + 0x08) 4 + leAt m (0x1BE + i * 16 + 0x0C) 4 ≤ 2 ^ 32 + 2 ^ 28

/-! ### GPT -/

theorem leAt_lt (b : Buf) (n : ℕ) : ∀ offset, leAt b offset n < 256 ^ n := by
  induction n with
  | zero => exact fun _ => Nat.one_pos
  | succ n ih =>
    intro offset
    have hbyte := (b offset).toNat_lt
    have hrest := ih (offset + 1)
    rw [leAt, Nat.pow_succ]
    omega

/-- The sizes of entries that are let through. -/
theorem entrySize_cases {entrySize : ℕ} (h : gptEntrySize ≤ entrySize)
    (hmod : 512 % entrySize = 0) :
    entrySize = 128 ∨ entrySize = 256 ∨ entrySize = 512 := by
  have hdvd : entrySize ∣ 512 := Nat.dvd_of_mod_eq_zero hmod
  have hmem : entrySize ∈ Nat.divisors 512 := Nat.mem_divisors.mpr ⟨hdvd, by decide⟩
  have hall : ∀ n ∈ Nat.divisors 512, gptEntrySize ≤ n → n = 128 ∨ n = 256 ∨ n = 512 := by decide
  exact hall entrySize hmem h

/-- A scan of at most `n` entries, none of them outside the sector. -/
structure ScanRight (n : ℕ) (r : Option Part × List ℕ) : Prop where
  part : ∀ q, r.1 = some q → q.Usable
  length : r.2.length ≤ n
  inside : ∀ entry ∈ r.2, entry + gptEntrySize ≤ 512

theorem ScanRight.stop (n : ℕ) : ScanRight n (none, []) :=
  ⟨fun q hq => (Option.some_ne_none q hq.symm).elim, Nat.zero_le _,
    fun _ hm => absurd hm List.not_mem_nil⟩

theorem ScanRight.cons {n entry : ℕ} {r : Option Part × List ℕ} (h : ScanRight n r)
    (hentry : entry + gptEntrySize ≤ 512) :
    ScanRight (n + 1) (r.1, entry :: r.2) where
  part := h.part
  length := Nat.succ_le_succ h.length
  inside := fun x hx => (List.mem_cons.mp hx).elim (fun heq => heq ▸ hentry) (h.inside x)

theorem gptScan_right {entrySector : ℕ → Option Buf} {entrySize : ℕ}
    (hsize : entrySize = 128 ∨ entrySize = 256 ∨ entrySize = 512)
    (n : ℕ) : ∀ (i : ℕ) (sector : Buf), ScanRight n (gptScan entrySector entrySize n i sector) := by
  induction n with
  | zero => exact fun _ _ => .stop 0
  | succ n ih =>
    intro i sector
    have hentry : i % (512 / entrySize) * entrySize + gptEntrySize ≤ 512 := by
      unfold gptEntrySize
      rcases hsize with rfl | rfl | rfl <;> omega
    rw [gptScan]
    dsimp only
    split
    · exact .stop _
    · refine ScanRight.cons ?_ hentry
      split_ifs
      · exact ih _ _
      · exact .stop n
      · exact .stop n
      · refine ⟨fun q hq => ?_, Nat.zero_le _, fun _ hm => absurd hm List.not_mem_nil⟩
        obtain rfl := Option.some.inj hq
        unfold Part.Usable
        dsimp only
        omega

theorem ataCheckGpt_right (sector1 : Option Buf) (entrySector : ℕ → Option Buf) :
    ScanRight 128 (ataCheckGpt sector1 entrySector) := by
  unfold ataCheckGpt
  cases sector1 with
  | none => exact .stop 128
  | some s =>
    dsimp only
    split_ifs with hmagic hsize hneg hcount
    · exact .stop 128
    · exact .stop 128
    · exact .stop 128
    · exact .stop 128
    · rw [not_or, not_or, not_lt, not_not] at hsize
      have hscan :=
        @gptScan_right entrySector _ (entrySize_cases hsize.1 hsize.2.1) (leAt s 0x50 4) 0 s
      exact ⟨hscan.part, hscan.length.trans (by omega), hscan.inside⟩

/-! ### MBR -/

/-- The first entry of the type decides. -/
theorem mbrScan_eq (m : Buf) (l : List ℕ) :
    ∀ (anyEntries : Bool) (p : Part), match l.find? fun i => m (0x1BE + i * 16 + 4) == 0x7F with
    | none => (mbrScan m l anyEntries p).1 = p ∧ (mbrScan m l anyEntries p).2 ≠ some true
    | some i => mbrScan m l anyEntries p =
        if leAt m (0x1BE + i * 16 + 0x0C) 4 = 0 ∨
          2 ^ 28 < (leAt m (0x1BE + i * 16 + 0x08) 4 + leAt m (0x1BE + i * 16 + 0x0C) 4) % 2 ^ 32
            then (p, none)
        else (⟨leAt m (0x1BE + i * 16 + 0x08) 4, leAt m (0x1BE + i * 16 + 0x0C) 4⟩, some true) := by
  induction l with
  | nil =>
    intro anyEntries p
    rw [mbrScan]
    cases anyEntries
    · exact ⟨rfl, fun h => nomatch h⟩
    · exact ⟨rfl, fun h => nomatch h⟩
  | cons i l ih =>
    intro anyEntries p
    rw [List.find?_cons, mbrScan]
    dsimp only
    by_cases htype : m (0x1BE + i * 16 + 4) = 0x7F
    · rw [htype]
      rfl
    · rw [beq_eq_false_iff_ne.mpr htype]
      by_cases hzero : m (0x1BE + i * 16 + 4) = 0
      · rw [if_pos hzero]
        exact ih anyEntries p
      · rw [if_neg hzero, if_pos htype]
        exact ih true p

/-- The end of the entry is right exactly when its sum does not wrap into the checked range. -/
theorem usable_iff {start sectors : ℕ} (hstart : start < 2 ^ 32) (hsectors : sectors < 2 ^ 32)
    (h : ¬(sectors = 0 ∨ 2 ^ 28 < (start + sectors) % 2 ^ 32)) :
    Part.Usable ⟨start, sectors⟩ ↔
    ¬(2 ^ 32 ≤ start + sectors ∧ start + sectors ≤ 2 ^ 32 + 2 ^ 28) := by
  unfold Part.Usable
  dsimp only
  omega

theorem ataCheckMbr_kept (sector0 : Option Buf) (h : (ataCheckMbr sector0 .boot).2 ≠ some true) :
    (ataCheckMbr sector0 .boot).1 = .boot := by
  cases sector0 with
  | none => rfl
  | some m =>
    by_cases hmagic : mbrMagic m = true
    · have hcheck : ataCheckMbr (some m) .boot = mbrScan m [0, 1, 2, 3] false .boot := if_pos hmagic
      have hscan := mbrScan_eq m [0, 1, 2, 3] false .boot
      rw [hcheck] at h ⊢
      split at hscan
      · exact hscan.1
      · rw [hscan] at h ⊢
        split_ifs at h ⊢
        · rfl
        · exact (h rfl).elim
    · have hcheck : ataCheckMbr (some m) .boot = (.boot, none) := if_neg hmagic
      rw [hcheck]

theorem ataCheckMbr_usable_iff (sector0 : Option Buf) :
    ((ataCheckMbr sector0 .boot).2 = some true → (ataCheckMbr sector0 .boot).1.Usable) ↔
      ∀ m, sector0 = some m → mbrMagic m = true → ¬MbrWraps m := by
  cases sector0 with
  | none => exact ⟨fun _ m hm => (Option.some_ne_none m hm.symm).elim, fun _ h => nomatch h⟩
  | some m =>
    have hread : (∀ m', some m = some m' → mbrMagic m' = true → ¬MbrWraps m') ↔
        (mbrMagic m = true → ¬MbrWraps m) :=
      ⟨fun h => h m rfl, fun h m' hm' => Option.some.inj hm' ▸ h⟩
    rw [hread]
    by_cases hmagic : mbrMagic m = true
    · have hcheck : ataCheckMbr (some m) .boot = mbrScan m [0, 1, 2, 3] false .boot := if_pos hmagic
      have hscan := mbrScan_eq m [0, 1, 2, 3] false .boot
      rw [hcheck]
      cases hentry : [0, 1, 2, 3].find? fun i => m (0x1BE + i * 16 + 4) == 0x7F with
      | none =>
        rw [hentry] at hscan
        have hno : ¬MbrWraps m := fun ⟨i, hi, _⟩ => Option.some_ne_none i (hi.symm.trans hentry)
        exact ⟨fun _ _ => hno, fun _ h => (hscan.2 h).elim⟩
      | some i =>
        rw [hentry] at hscan
        have hwraps : MbrWraps m ↔ leAt m (0x1BE + i * 16 + 0x0C) 4 ≠ 0 ∧
            2 ^ 32 ≤ leAt m (0x1BE + i * 16 + 0x08) 4 + leAt m (0x1BE + i * 16 + 0x0C) 4 ∧
            leAt m (0x1BE + i * 16 + 0x08) 4 + leAt m (0x1BE + i * 16 + 0x0C) 4 ≤
              2 ^ 32 + 2 ^ 28 := by
          constructor
          · rintro ⟨j, hj, h⟩
            exact Option.some.inj (hj.symm.trans hentry) ▸ h
          · exact fun h => ⟨i, hentry, h⟩
        have hstart := leAt_lt m 4 (0x1BE + i * 16 + 0x08)
        have hsectors := leAt_lt m 4 (0x1BE + i * 16 + 0x0C)
        rw [hwraps]
        dsimp only at hscan
        rw [hscan]
        generalize leAt m (0x1BE + i * 16 + 0x08) 4 = start at *
        generalize leAt m (0x1BE + i * 16 + 0x0C) 4 = sectors at *
        by_cases hfail : sectors = 0 ∨ 2 ^ 28 < (start + sectors) % 2 ^ 32
        · rw [if_pos hfail]
          exact ⟨fun _ _ => by omega, fun _ h => nomatch h⟩
        · rw [if_neg hfail]
          have husable := usable_iff hstart hsectors hfail
          constructor
          · exact fun h _ ⟨_, hwrap⟩ => husable.mp (h rfl) hwrap
          · exact fun h _ => husable.mpr fun hwrap => h hmagic ⟨fun hz => hfail (.inl hz), hwrap⟩
    · have hcheck : ataCheckMbr (some m) .boot = (.boot, none) := if_neg hmagic
      rw [hcheck]
      exact ⟨fun _ h => (hmagic h).elim, fun _ h => nomatch h⟩

/-- Whatever the disk holds, the partition chosen is usable and nothing else changes, unless the end
of the entry of the MBR wraps. -/
theorem checksRight_iff (sector0 sector1 : Option Buf) (entrySector : ℕ → Option Buf) :
    ChecksRight sector0 sector1 entrySector .boot ↔
    ∀ m, sector0 = some m → mbrMagic m = true → ¬MbrWraps m := by
  have hgpt := ataCheckGpt_right sector1 entrySector
  have hmbr := ataCheckMbr_usable_iff sector0
  constructor
  · exact fun h => hmbr.mp h.mbr
  · exact fun h =>
      ⟨hgpt.part, ⟨hgpt.length, hgpt.inside⟩, hmbr.mpr h, fun _ => ataCheckMbr_kept sector0⟩

/-- An MBR whose first entry starts at the last sector number and has two sectors. -/
def wrappingMbr : Buf := fun i =>
  if i = 510 then 0x55 else if i = 511 then 0xAA else if i = 0x1C2 then 0x7F
  else if i = 0x1CA then 2
  else if 0x1C6 ≤ i ∧ i < 0x1CA then 0xFF else 0

theorem wrappingMbr_accepted : ¬ChecksRight (some wrappingMbr) none (fun _ => none) .boot := by
  intro h
  have haccepted : ataCheckMbr (some wrappingMbr) .boot = (⟨0xFFFFFFFF, 2⟩, some true) := by
    decide +kernel
  have husable := h.mbr (congrArg Prod.snd haccepted)
  rw [haccepted] at husable
  exact absurd husable.2 (by decide)

end X86Kernel.Ata
