import X86Kernel.Mem.HeapRun

/-! A regular file that is open, as `fs.c` keeps it: where writes, reads and seeks leave its offset
and its size. -/
namespace X86Kernel.Fs

open Mem (int32)

def fsFlagWriteonly : ℕ := 1
def fsFlagReadonly : ℕ := 2
def fsFlagTruncate : ℕ := 4
def fsFlagAppend : ℕ := 8
def fsFlagCreate : ℕ := 16

/-- The routines of `fat.c` below an open file, where `τ` is all that they depend on. -/
structure Fat (τ : Type) where
  fatWriteFileAt : ℕ → List UInt8 → τ → ℤ × τ
  fatReadFileUser : ℕ → ℕ → τ → (ℤ × (ℕ → UInt8)) × τ
  write_le : ∀ offset bytes v, (fatWriteFileAt offset bytes v).1 ≤ bytes.length
  read_le : ∀ offset size v, (fatReadFileUser offset size v).1.1 ≤ size

/-- `fs_file_t`, for `FS_TYPE_FILE` -/
structure File (τ : Type) where
  flags : ℕ
  currentPos : ℕ
  fileSize : ℕ
  volume : τ

/-- Every write to the volume stores something. -/
def Fat.Writes {τ : Type} (fat : Fat τ) : Prop :=
  ∀ offset bytes v, bytes ≠ [] → 0 < (fat.fatWriteFileAt offset bytes v).1

section Calls

variable {τ : Type} (fat : Fat τ) (file : File τ)

/-- Opens a file by the size of its entry; `none` is a path that names nothing. -/
def fsOpen (flags : ℕ) (entry : Option ℕ) (v : τ) : Option (File τ) :=
  match entry with
  | none => if flags &&& fsFlagCreate ≠ 0 then some ⟨flags, 0, 0, v⟩ else none
  | some size =>
    if flags &&& fsFlagTruncate ≠ 0 ∧ flags &&& fsFlagReadonly = 0 ∧ size > 0 then
      some ⟨flags, 0, 0, v⟩
    else some ⟨flags, 0, size, v⟩

/-- Where a write goes. -/
def File.writePos : ℕ := if file.flags &&& fsFlagAppend ≠ 0 then file.fileSize else file.currentPos

def fsWrite (bytes : List UInt8) : ℤ × File τ :=
  if file.flags &&& fsFlagReadonly ≠ 0 then (-1, file)
  else
    let pos := file.writePos
    let r := fat.fatWriteFileAt pos bytes file.volume
    let currentPos := if r.1 > 0 then (pos + r.1.toNat) % 2 ^ 32 else file.currentPos
    let fileSize := if r.1 > 0 ∧ currentPos > file.fileSize then currentPos else file.fileSize
    (if r.1 < 0 then -1 else r.1, ⟨file.flags, currentPos, fileSize, r.2⟩)

/-- The bytes that a read asks `fat.c` for. -/
def readSize (size : ℕ) : ℕ :=
  let size := if int32 size < 0 then file.fileSize else size
  if (file.currentPos + size) % 2 ^ 32 > file.fileSize then file.fileSize - file.currentPos
  else size

def fsRead (size : ℕ) : (ℤ × (ℕ → UInt8)) × File τ :=
  if file.flags &&& fsFlagWriteonly ≠ 0 then ((-1, fun _ => 0), file)
  else if file.currentPos ≥ file.fileSize then ((0, fun _ => 0), file)
  else if readSize file size = 0 then ((0, fun _ => 0), file)
  else
    let r := fat.fatReadFileUser file.currentPos (readSize file size) file.volume
    if r.1.1 ≥ 0 then
      (r.1, { file with currentPos := (file.currentPos + r.1.1.toNat) % 2 ^ 32, volume := r.2 })
    else ((-1, r.1.2), { file with volume := r.2 })

/-- The count comes in a register, as an `int`. -/
def apiRead (count : ℕ) : (ℤ × (ℕ → UInt8)) × File τ :=
  if count % 2 ^ 32 = 0 then ((0, fun _ => 0), file)
  else if int32 count < 0 then ((-1, fun _ => 0), file)
  else fsRead fat file (count % 2 ^ 32)

def fsFilesize : ℤ := int32 file.fileSize

/-- The base of a seek. -/
def seekBase (type : ℤ) : Option ℤ :=
  if type = 0 then some 0
  else if type = 1 then some (int32 file.currentPos)
  else if type = 2 then some (int32 file.fileSize)
  else none

def fsSeek (offset type : ℤ) : ℤ × File τ :=
  match seekBase file type with
  | none => (-1, file)
  | some base =>
    if offset > 0 ∧ base > 0x7FFFFFFF - offset then (-1, file)
    else
      let pos := int32 (base + offset)
      if pos < 0 then (-1, file)
      else
        let pos := min pos (int32 file.fileSize)
        (pos, { file with currentPos := (pos % 2 ^ 32).toNat })

end Calls

/-! ### What the calls return -/

variable {τ : Type} {fat : Fat τ} {file : File τ}

theorem fsWrite_le (bytes : List UInt8) : (fsWrite fat file bytes).1 ≤ bytes.length := by
  have hle := fat.write_le file.writePos bytes file.volume
  unfold fsWrite
  split
  · dsimp only
    omega
  · dsimp only
    split
    · omega
    · exact hle

theorem int32_mod {count : ℕ} (h : ¬int32 count < 0) :
    ¬int32 (count % 2 ^ 32 : ℕ) < 0 ∧ count % 2 ^ 32 < 2 ^ 31 := by
  rw [Mem.int32_eq] at h ⊢
  omega

theorem readSize_le {size : ℕ} (h : ¬int32 size < 0) : readSize file size ≤ size := by
  unfold readSize
  rw [if_neg h]
  dsimp only
  split
  · rename_i hclamp
    have hmod := Nat.mod_le (file.currentPos + size) (2 ^ 32)
    omega
  · exact le_rfl

theorem apiRead_le (count : ℕ) : (apiRead fat file count).1.1 ≤ count := by
  unfold apiRead
  split
  · exact Int.natCast_nonneg count
  split
  · dsimp only
    omega
  rename_i hint
  have hle := fat.read_le file.currentPos (readSize file (count % 2 ^ 32)) file.volume
  have hsize : readSize file (count % 2 ^ 32) ≤ count % 2 ^ 32 := readSize_le (int32_mod hint).1
  have hmod := Nat.mod_le count (2 ^ 32)
  unfold fsRead
  split
  · dsimp only
    omega
  split
  · dsimp only
    omega
  split
  · dsimp only
    omega
  dsimp only
  split
  · dsimp only
    omega
  · dsimp only
    omega

/-! ### Where the calls leave the file -/

/-- The offset and the size are as before. -/
structure SamePlace (file file' : File τ) : Prop where
  flags : file'.flags = file.flags
  currentPos : file'.currentPos = file.currentPos
  fileSize : file'.fileSize = file.fileSize

theorem SamePlace.refl (file : File τ) : SamePlace file file := ⟨rfl, rfl, rfl⟩

theorem fsWrite_failed {bytes : List UInt8} (h : (fsWrite fat file bytes).1 ≤ 0) :
    SamePlace file (fsWrite fat file bytes).2 := by
  unfold fsWrite at h ⊢
  split
  · exact SamePlace.refl file
  rename_i hwritable
  rw [if_neg hwritable] at h
  dsimp only at h ⊢
  have hnone : ¬(fat.fatWriteFileAt file.writePos bytes file.volume).1 > 0 := by
    split at h <;> omega
  rw [if_neg hnone, if_neg fun hboth => hnone hboth.1]
  exact ⟨rfl, rfl, rfl⟩

theorem fsWrite_pos {bytes : List UInt8} (h : fat.Writes)
    (hwritable : file.flags &&& fsFlagReadonly = 0)
    (hne : bytes ≠ []) : 0 < (fsWrite fat file bytes).1 := by
  have hpos := h file.writePos bytes file.volume hne
  unfold fsWrite
  rw [if_neg (not_not.mpr hwritable)]
  dsimp only
  rw [if_neg (by omega)]
  exact hpos

/-- What is written lies before the new offset, and in the file. -/
theorem fsWrite_sent {bytes : List UInt8} (h : 0 < (fsWrite fat file bytes).1)
    (hlt : file.writePos + bytes.length < 2 ^ 32) :
    (fsWrite fat file bytes).2.flags = file.flags ∧
      (fsWrite fat file bytes).2.currentPos = file.writePos + (fsWrite fat file bytes).1.toNat ∧
        (fsWrite fat file bytes).2.fileSize =
        max file.fileSize (file.writePos + (fsWrite fat file bytes).1.toNat) := by
  have hle := fat.write_le file.writePos bytes file.volume
  unfold fsWrite at h ⊢
  split at h
  · simp at h
  rename_i hwritable
  rw [if_neg hwritable]
  dsimp only at h ⊢
  have hpos : (fat.fatWriteFileAt file.writePos bytes file.volume).1 > 0 := by
    split at h <;> omega
  rw [if_pos hpos, if_neg (by omega : ¬(fat.fatWriteFileAt file.writePos bytes file.volume).1 < 0),
    Nat.mod_eq_of_lt (by omega)]
  refine ⟨rfl, rfl, ?_⟩
  split <;> omega

theorem int32_natCast {n : ℕ} (h : n < 2 ^ 31) : int32 n = n :=
  Mem.int32_of_bounds (by omega) (by omega)

theorem readSize_end {count : ℕ} (hpos : file.currentPos ≤ file.fileSize)
    (hsize : file.fileSize < 2 ^ 31) (hint : ¬int32 count < 0) :
      readSize file (count % 2 ^ 32) ≤ file.fileSize - file.currentPos := by
  obtain ⟨hnonneg, hlt⟩ := int32_mod hint
  unfold readSize
  rw [if_neg hnonneg]
  dsimp only
  split
  · exact le_rfl
  · rename_i hclamp
    rw [Nat.mod_eq_of_lt (by omega)] at hclamp
    omega

theorem fsFilesize_eq (hsize : file.fileSize < 2 ^ 31) : fsFilesize file = file.fileSize :=
  int32_natCast hsize

/-- A read moves the offset by what it gives, within the file. -/
theorem apiRead_moves (fat : Fat τ) (count : ℕ) (hpos : file.currentPos ≤ file.fileSize)
    (hsize : file.fileSize < 2 ^ 31) :
    (apiRead fat file count).2.flags = file.flags ∧
    (apiRead fat file count).2.fileSize = file.fileSize ∧
      (apiRead fat file count).2.currentPos = file.currentPos + (apiRead fat file count).1.1.toNat ∧
        (apiRead fat file count).2.currentPos ≤ file.fileSize ∧
          (file.flags &&& fsFlagWriteonly ≠ 0 → (apiRead fat file count).1.1 ≤ 0) := by
  unfold apiRead
  split
  · exact ⟨rfl, rfl, rfl, hpos, fun _ => le_rfl⟩
  split
  · exact ⟨rfl, rfl, rfl, hpos, fun _ => by norm_num⟩
  rename_i hint
  have hle := fat.read_le file.currentPos (readSize file (count % 2 ^ 32)) file.volume
  have hend := readSize_end hpos hsize hint
  unfold fsRead
  split
  · exact ⟨rfl, rfl, rfl, hpos, fun _ => by norm_num⟩
  rename_i hreadable
  split
  · exact ⟨rfl, rfl, rfl, hpos, fun hno => absurd hno hreadable⟩
  split
  · exact ⟨rfl, rfl, rfl, hpos, fun hno => absurd hno hreadable⟩
  dsimp only
  split
  · dsimp only
    rw [Nat.mod_eq_of_lt (by omega)]
    exact ⟨rfl, rfl, rfl, by omega, fun hno => absurd hno hreadable⟩
  · refine ⟨rfl, rfl, ?_, hpos, fun hno => absurd hno hreadable⟩
    rfl

/-- A seek moves the offset to where it says, within the file; one that fails leaves it. -/
theorem fsSeek_moves (offset type : ℤ) (hsize : file.fileSize < 2 ^ 31) :
    (fsSeek file offset type).2.flags = file.flags ∧
    (fsSeek file offset type).2.fileSize = file.fileSize ∧
      ((fsSeek file offset type).1 < 0 ∧ (fsSeek file offset type).2 = file ∨
        (fsSeek file offset type).1 = (fsSeek file offset type).2.currentPos ∧
          (fsSeek file offset type).2.currentPos ≤ file.fileSize) := by
  unfold fsSeek
  split
  · exact ⟨rfl, rfl, .inl ⟨by norm_num, rfl⟩⟩
  split
  · exact ⟨rfl, rfl, .inl ⟨by norm_num, rfl⟩⟩
  dsimp only
  rw [int32_natCast hsize]
  split
  · exact ⟨rfl, rfl, .inl ⟨by norm_num, rfl⟩⟩
  · refine ⟨rfl, rfl, .inr ?_⟩
    dsimp only
    omega

/-- Asking for the offset leaves it. -/
theorem fsSeek_cur (hpos : file.currentPos ≤ file.fileSize) (hsize : file.fileSize < 2 ^ 31) :
    fsSeek file 0 1 = ((file.currentPos : ℤ), file) := by
  have hcur := int32_natCast (show file.currentPos < 2 ^ 31 by omega)
  have hbase : seekBase file 1 = some (file.currentPos : ℤ) := by
    unfold seekBase
    rw [hcur]
    rfl
  unfold fsSeek
  rw [hbase]
  dsimp only
  rw [if_neg (by omega), Int.add_zero, hcur, if_neg (by omega), int32_natCast hsize,
    min_eq_left (by omega)]
  have hmod : ((file.currentPos : ℤ) % 2 ^ 32).toNat = file.currentPos := by omega
  rw [hmod]

end X86Kernel.Fs
