import X86Kernel.Fs.File
import X86Kernel.Lib.Slice

/-! The buffered streams of `stdio.c`, over any answers of the system calls. -/
namespace X86Kernel.Usr

open Slice
open Fs (fsFlagAppend fsFlagCreate fsFlagReadonly fsFlagTruncate fsFlagWriteonly)
open Mem (int32)

abbrev Bytes := ℕ → UInt8

/-- `STDIO_BUFFER_SIZE` -/
def stdioBufferSize : ℕ := 2048 * 8

structure FILE where
  /-- Used for buffered writes; allocated by the first one. -/
  buffer : Option Bytes
  bufferPos : ℕ
  mode : List Char
  isOpen : Bool
  isStream : Bool
  fd : ℤ
  pos_le : bufferPos ≤ stdioBufferSize
  pos_none : buffer = none → bufferPos = 0

/-- The calls that a stream makes, where `σ` is all that they depend on. No call takes or gives more
than was asked for. -/
structure Os (σ : Type) where
  malloc : ℕ → σ → Option Bytes × σ
  write : ℤ → List UInt8 → σ → ℤ × σ
  read : ℤ → ℕ → σ → (ℤ × Bytes) × σ
  seek : ℤ → ℤ → ℤ → σ → ℤ × σ
  fsize : ℤ → σ → ℤ × σ
  write_le : ∀ fd bytes s, (write fd bytes s).1 ≤ bytes.length
  read_le : ∀ fd n s, (read fd n s).1.1 ≤ n

namespace FILE

/-- The bytes that wait to be written. -/
def pending (file : FILE) : List UInt8 :=
  (file.buffer.map fun buf => slice buf 0 file.bufferPos).getD []

/-- The stream with another buffer. -/
def filled (file : FILE) (buf : Bytes) (pos : ℕ) (h : pos ≤ stdioBufferSize) : FILE :=
  { file with
    buffer := some buf, bufferPos := pos, pos_le := h, pos_none := fun hnone => nomatch hnone }

end FILE

/-- The flags that `fopen` opens a file with. -/
def fopenFlags (mode : List Char) : ℕ :=
  (if '+' ∈ mode then 0 else if 'r' ∈ mode then fsFlagReadonly else fsFlagWriteonly) |||
    (if 'w' ∈ mode ∨ 'a' ∈ mode then fsFlagCreate else 0) ||| (if 'a' ∈ mode then fsFlagAppend
      else 0) |||
      (if 'w' ∈ mode then fsFlagTruncate else 0)

/-- What `fopen` returns for a file. -/
def opened (mode : List Char) (fd : ℤ) : FILE where
  buffer := none
  bufferPos := 0
  mode := mode.take 3
  isOpen := true
  isStream := false
  fd := fd
  pos_le := Nat.zero_le _
  pos_none _ := rfl

section Calls

variable {σ : Type} (os : Os σ)

/-- The loop of `fflush`, with `sent` bytes of the buffer written. -/
def flushLoop (fd : ℤ) (buf : Bytes) (pos sent : ℕ) (s : σ) : ℕ × σ :=
  if _ : sent < pos then
    let r := os.write fd (slice buf sent (pos - sent)) s
    if _ : r.1 ≤ 0 then (sent, r.2) else flushLoop fd buf pos (sent + r.1.toNat) r.2
  else (sent, s)
termination_by pos - sent
decreasing_by
  change pos - (sent + r.1.toNat) < pos - sent
  omega

def fflush (file : FILE) (s : σ) : (FILE × σ) × ℤ :=
  if file.isOpen = false then ((file, s), -1)
  else
    match file.buffer with
    | none => ((file, s), 0)
    | some buf =>
      if file.bufferPos = 0 then ((file, s), 0)
      else
        let r := flushLoop os file.fd buf file.bufferPos 0 s
        if _ : r.1 < file.bufferPos then
          -- memmove(buffer, buffer + sent, buffer_pos - sent)
          let left := file.bufferPos - r.1
          ((file.filled (copy buf 0 buf r.1 left) left ((Nat.sub_le _ _).trans file.pos_le), r.2),
            -1)
        else ((file.filled buf 0 (Nat.zero_le _), r.2), 0)

/-- A flush that does not fail leaves nothing in the buffer. -/
theorem fflush_pos {file : FILE} {s : σ} (h : ¬(fflush os file s).2 < 0) :
    (fflush os file s).1.1.bufferPos = 0 := by
  unfold fflush at h ⊢
  split at h
  · simp at h
  rename_i hopen
  rw [if_neg hopen]
  cases hbuf : file.buffer with
  | none => exact file.pos_none hbuf
  | some buf =>
    rw [hbuf] at h
    dsimp only at h ⊢
    split_ifs at h ⊢ with hzero hleft
    · exact hzero
    · simp at h
    · rfl

/-- `write_bytes` of `fwrite` -/
def chunk (pos remaining : ℕ) : ℕ := min (min remaining stdioBufferSize) (stdioBufferSize - pos)

theorem chunk_le {pos remaining : ℕ} :
    chunk pos remaining ≤ remaining ∧ chunk pos remaining ≤ stdioBufferSize - pos := by
  unfold chunk
  omega

theorem chunk_eq_zero {pos remaining : ℕ} (hpos : pos ≤ stdioBufferSize)
    (h : chunk pos remaining = 0) :
    remaining = 0 ∨ pos = stdioBufferSize := by
  unfold chunk stdioBufferSize at *
  omega

/-- The loop of `fwrite`; the buffer is there. -/
def fwriteLoop (ptr : Bytes) (written remaining : ℕ) (file : FILE) (s : σ) : (FILE × σ) × ℕ :=
  if _ : remaining = 0 then ((file, s), written)
  else
    match file.buffer with
    | none => ((file, s), written)
    | some buf =>
      if _ : chunk file.bufferPos remaining = 0 then
        let r := fflush os file s
        if _ : r.2 < 0 then (r.1, written) else fwriteLoop ptr written remaining r.1.1 r.1.2
      else
        let n := chunk file.bufferPos remaining
        fwriteLoop ptr (written + n) (remaining - n)
          (file.filled (copy buf file.bufferPos ptr written n) (file.bufferPos + n)
            (Nat.add_le_of_le_sub' file.pos_le chunk_le.2)) s
termination_by 2 * remaining + if file.bufferPos = stdioBufferSize then 1 else 0
decreasing_by
  · rename_i hr hfull hflush
    have hzero : r.1.1.bufferPos = 0 := fflush_pos os hflush
    have hpos := (chunk_eq_zero file.pos_le hfull).resolve_left hr
    rw [hzero, if_pos hpos, if_neg (by decide)]
    omega
  · have hle : chunk file.bufferPos remaining ≤ remaining := chunk_le.1
    split <;> split <;> omega

/-- The buffer is allocated by the first write. -/
def allocate (file : FILE) (s : σ) : Option FILE × σ :=
  match file.buffer with
  | some _ => (some file, s)
  | none =>
    let r := os.malloc stdioBufferSize s
    (r.1.map fun buf => file.filled buf 0 (Nat.zero_le _), r.2)

def fwrite (ptr : Bytes) (size count : ℕ) (file : FILE) (s : σ) : (FILE × σ) × ℕ :=
  if file.isOpen = false ∨ size = 0 then ((file, s), 0)
  else
    let totalBytes := size * count % 2 ^ 32
    if totalBytes = 0 then ((file, s), 0)
    else if file.isStream = true then
      let r := os.write file.fd (slice ptr 0 totalBytes) s
      if r.1 < 0 then ((file, r.2), 0) else ((file, r.2), r.1.toNat / size)
    else
      match allocate os file s with
      | (none, s) => ((file, s), 0)
      | (some file, s) =>
        let r := fwriteLoop os ptr 0 totalBytes file s
        (r.1, r.2 / size)

/-- The loop of `fread`, with `readBytes` bytes read to `ptr`. -/
def freadLoop (fd : ℤ) (totalBytes readBytes : ℕ) (ptr : Bytes) (s : σ) : (ℕ × Bytes) × σ :=
  if _ : readBytes < totalBytes then
    let r := os.read fd (totalBytes - readBytes) s
    if _ : r.1.1 ≤ 0 then ((readBytes, ptr), r.2)
    else freadLoop fd totalBytes (readBytes + r.1.1.toNat)
      (copy ptr readBytes r.1.2 0 r.1.1.toNat) r.2
  else ((readBytes, ptr), s)
termination_by totalBytes - readBytes
decreasing_by
  change totalBytes - (readBytes + r.1.1.toNat) < totalBytes - readBytes
  omega

/-- What `fread` returns, and the memory at `ptr` after it. -/
def fread (ptr : Bytes) (size count : ℕ) (file : FILE) (s : σ) : (FILE × σ) × ℕ × Bytes :=
  if file.isOpen = false ∨ size = 0 then ((file, s), 0, ptr)
  else
    let totalBytes := size * count % 2 ^ 32
    if totalBytes = 0 then ((file, s), 0, ptr)
    else
      let f := fflush os file s
      if f.2 < 0 then (f.1, 0, ptr)
      else if f.1.1.isStream = true then
        let r := os.read f.1.1.fd totalBytes f.1.2
        if r.1.1 ≤ 0 then ((f.1.1, r.2), 0, ptr)
        else ((f.1.1, r.2), r.1.1.toNat / size, copy ptr 0 r.1.2 0 r.1.1.toNat)
      else
        let r := freadLoop os f.1.1.fd totalBytes 0 ptr f.1.2
        ((f.1.1, r.2), r.1.1 / size, r.1.2)

def fseek (pos type : ℤ) (file : FILE) (s : σ) : (FILE × σ) × ℤ :=
  if file.isOpen = false ∨ file.isStream = true then ((file, s), -1)
  else
    let f := fflush os file s
    if f.2 < 0 then (f.1, -1)
    else
      let r := os.seek f.1.1.fd pos type f.1.2
      ((f.1.1, r.2), if r.1 < 0 then -1 else 0)

def seekCur : ℤ := 1

/-- The sum is a `uint32_t`, returned as an `int`. -/
def ftell (file : FILE) (s : σ) : (FILE × σ) × ℤ :=
  if file.isOpen = false then ((file, s), -1)
  else if file.isStream = true then ((file, s), 0)
  else
    let r := if 'a' ∈ file.mode ∧ '+' ∉ file.mode then os.fsize file.fd s
      else os.seek file.fd 0 seekCur s
    ((file, r.2), if r.1 < 0 then -1 else int32 (r.1 + file.bufferPos))

end Calls

end X86Kernel.Usr
