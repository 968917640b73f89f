import X86Kernel.Lib.Run
import X86Kernel.Usr.Stdio

/-! Rules for the calls of a stream, and what follows for whole runs: no byte is lost or written
twice. -/
namespace X86Kernel.Usr

open Slice

variable {σ : Type} {os : Os σ} {file : FILE} {s : σ} {fd : ℤ} {ptr : Bytes} {size count : ℕ}

namespace FILE

@[simp] theorem pending_filled {buf : Bytes} {pos : ℕ} (h : pos ≤ stdioBufferSize) :
    (file.filled buf pos h).pending = slice buf 0 pos := rfl

theorem pending_some {buf : Bytes} (h : file.buffer = some buf) :
    file.pending = slice buf 0 file.bufferPos := by
  simp [pending, h]

theorem pending_none (h : file.buffer = none) : file.pending = [] := by simp [pending, h]

@[simp] theorem length_pending : file.pending.length = file.bufferPos := by
  cases h : file.buffer with
  | none => simp [pending_none h, file.pos_none h]
  | some buf => simp [pending_some h]

end FILE

/-- Another state of the same stream. -/
structure SameStream (file file' : FILE) : Prop where
  mode : file'.mode = file.mode
  isOpen : file'.isOpen = file.isOpen
  isStream : file'.isStream = file.isStream
  fd : file'.fd = file.fd
  buffer : file.buffer ≠ none → file'.buffer ≠ none

theorem SameStream.refl (file : FILE) : SameStream file file := ⟨rfl, rfl, rfl, rfl, id⟩

theorem SameStream.trans {a b c : FILE} (h : SameStream a b) (h' : SameStream b c) :
    SameStream a c :=
  ⟨h'.mode.trans h.mode, h'.isOpen.trans h.isOpen, h'.isStream.trans h.isStream, h'.fd.trans h.fd,
    h'.buffer ∘ h.buffer⟩

theorem SameStream.filled {buf : Bytes} {pos : ℕ} (h : pos ≤ stdioBufferSize) :
    SameStream file (file.filled buf pos h) :=
  ⟨rfl, rfl, rfl, rfl, nofun⟩

/-! ### Flushing -/

/-- What holds of the bytes to write holds of what a write leaves of them; `F` is what holds after a
write that fails. -/
structure WriteRule (os : Os σ) (fd : ℤ) (P F : List UInt8 → σ → Prop) : Prop where
  sent : ∀ bytes s, bytes ≠ [] → P bytes s → 0 < (os.write fd bytes s).1 →
    P (bytes.drop (os.write fd bytes s).1.toNat) (os.write fd bytes s).2
  failed : ∀ bytes s, bytes ≠ [] → P bytes s → (os.write fd bytes s).1 ≤ 0 →
    F bytes (os.write fd bytes s).2

variable {P F : List UInt8 → σ → Prop}

theorem flushLoop_rule (hP : WriteRule os fd P F) {buf : Bytes} {pos : ℕ} (sent : ℕ) (s : σ)
    (hle : sent ≤ pos) (h : P (slice buf sent (pos - sent)) s) :
    let r := flushLoop os fd buf pos sent s
    r.1 = pos ∧ P [] r.2 ∨ r.1 < pos ∧ F (slice buf r.1 (pos - r.1)) r.2 := by
  induction sent, s using flushLoop.induct os fd buf pos with
  | case1 sent s hlt r hfail =>
    rw [flushLoop, dif_pos hlt, dif_pos hfail]
    right
    exact ⟨hlt, hP.failed _ s (List.ne_nil_of_length_pos (by simpa using hlt)) h hfail⟩
  | case2 sent s hlt r hok ih =>
    rw [flushLoop, dif_pos hlt, dif_neg hok]
    have hn := os.write_le fd (slice buf sent (pos - sent)) s
    rw [length_slice] at hn
    have hsent : r.1.toNat ≤ pos - sent := by
      change (os.write fd (slice buf sent (pos - sent)) s).1.toNat ≤ pos - sent
      omega
    have hkept := hP.sent _ s (List.ne_nil_of_length_pos (by simpa using hlt)) h (not_le.mp hok)
    rw [drop_slice hsent, Nat.sub_sub] at hkept
    exact ih (by omega) hkept
  | case3 sent s hdone =>
    rw [flushLoop, dif_neg hdone]
    left
    obtain rfl : sent = pos := by omega
    rw [Nat.sub_self, slice_zero] at h
    exact ⟨rfl, h⟩

theorem fflush_same : SameStream file (fflush os file s).1.1 := by
  unfold fflush
  split
  · exact SameStream.refl file
  split
  · exact SameStream.refl file
  split
  · exact SameStream.refl file
  dsimp only
  split
  · exact SameStream.filled _
  · exact SameStream.filled _

/-- A flush succeeds when nothing is left; otherwise a write has failed on what is. -/
theorem fflush_rule (hP : WriteRule os file.fd P F) (hopen : file.isOpen = true)
    (h : P file.pending s) :
    let r := fflush os file s
    r.2 = 0 ∧ r.1.1.pending = [] ∧ P [] r.1.2 ∨
    r.2 = -1 ∧ r.1.1.pending ≠ [] ∧ F r.1.1.pending r.1.2 := by
  unfold fflush
  rw [if_neg (by simp [hopen])]
  cases hbuf : file.buffer with
  | none =>
    have hnil := FILE.pending_none hbuf
    left
    exact ⟨rfl, hnil, hnil ▸ h⟩
  | some buf =>
    dsimp only
    split
    · rename_i hzero
      have hnil : file.pending = [] := by
        rw [FILE.pending_some hbuf, hzero, slice_zero]
      left
      exact ⟨rfl, hnil, hnil ▸ h⟩
    · rw [FILE.pending_some hbuf] at h
      rcases flushLoop_rule hP 0 s (Nat.zero_le _) h with ⟨hall, hsent⟩ | ⟨hlt, hfailed⟩
      · rw [dif_neg (not_lt.mpr hall.ge)]
        left
        exact ⟨rfl, rfl, hsent⟩
      · rw [dif_pos hlt]
        right
        dsimp only
        rw [FILE.pending_filled, slice_move]
        refine ⟨rfl, ?_, hfailed⟩
        apply List.ne_nil_of_length_pos
        rw [length_slice]
        exact Nat.sub_pos_of_lt hlt

/-! ### Writing -/

theorem fwriteLoop_same (written remaining : ℕ) :
    SameStream file (fwriteLoop os ptr written remaining file s).1.1 := by
  induction written, remaining, file, s using fwriteLoop.induct os ptr with
  | case1 written file s =>
    rw [fwriteLoop, dif_pos rfl]
    exact SameStream.refl file
  | case2 written remaining file s hr hbuf =>
    rw [fwriteLoop, dif_neg hr, hbuf]
    exact SameStream.refl file
  | case3 written remaining file s hr buf hbuf hfull r hfail =>
    rw [fwriteLoop, dif_neg hr, hbuf]
    dsimp only
    rw [dif_pos hfull, dif_pos hfail]
    exact fflush_same
  | case4 written remaining file s hr buf hbuf hfull r hok ih =>
    rw [fwriteLoop, dif_neg hr, hbuf]
    dsimp only
    rw [dif_pos hfull, dif_neg hok]
    exact fflush_same.trans ih
  | case5 written remaining file s hr buf hbuf hroom n ih =>
    rw [fwriteLoop, dif_neg hr, hbuf]
    dsimp only
    rw [dif_neg hroom]
    exact (SameStream.filled _).trans ih

/-- Rules for the writes and for the copies to the buffer, where `k` bytes of `total` are taken. -/
structure TakeRule (os : Os σ) (fd : ℤ) (ptr : Bytes) (total : ℕ)
    (Q F : ℕ → List UInt8 → σ → Prop) : Prop where
  write : ∀ k, WriteRule os fd (Q k) (F k)
  take : ∀ k n bytes s, k + n ≤ total → Q k bytes s → Q (k + n) (bytes ++ slice ptr k n) s

variable {total : ℕ} {Q G : ℕ → List UInt8 → σ → Prop}

theorem fwriteLoop_rule (hQ : TakeRule os fd ptr total Q G) (written remaining : ℕ)
    (htotal : written + remaining = total)
    (hfd : file.fd = fd) (hopen : file.isOpen = true) (hbuffer : file.buffer ≠ none)
    (h : Q written file.pending s) :
    let r := fwriteLoop os ptr written remaining file s
    r.2 = total ∧ Q total r.1.1.pending r.1.2 ∨ r.2 ≤ total ∧ G r.2 r.1.1.pending r.1.2 := by
  induction written, remaining, file, s using fwriteLoop.induct os ptr with
  | case1 written file s =>
    rw [fwriteLoop, dif_pos rfl]
    left
    exact ⟨htotal, htotal ▸ h⟩
  | case2 written remaining file s hr hbuf => exact absurd hbuf hbuffer
  | case3 written remaining file s hr buf hbuf hfull r hfail =>
    rw [fwriteLoop, dif_neg hr, hbuf]
    dsimp only
    rw [dif_pos hfull, dif_pos hfail]
    rcases fflush_rule (hfd ▸ hQ.write written) hopen h with ⟨hzero, -⟩ | ⟨-, -, hfailed⟩
    · exact absurd hfail (by simp [r, hzero])
    · right
      exact ⟨by omega, hfailed⟩
  | case4 written remaining file s hr buf hbuf hfull r hok ih =>
    rw [fwriteLoop, dif_neg hr, hbuf]
    dsimp only
    rw [dif_pos hfull, dif_neg hok]
    have hsame : SameStream file r.1.1 := fflush_same
    rcases fflush_rule (hfd ▸ hQ.write written) hopen h with ⟨-, hnil, hsent⟩ | ⟨hneg, -⟩
    · exact ih htotal (hsame.fd.trans hfd) (hsame.isOpen.trans hopen) (hsame.buffer hbuffer)
        (hnil.symm ▸ hsent)
    · exact absurd (by simp [r, hneg]) hok
  | case5 written remaining file s hr buf hbuf hroom n ih =>
    rw [fwriteLoop, dif_neg hr, hbuf]
    dsimp only
    rw [dif_neg hroom]
    have hle : n ≤ remaining := chunk_le.1
    apply ih (by omega) hfd hopen nofun
    rw [FILE.pending_filled, slice_copy, ← FILE.pending_some hbuf]
    exact hQ.take written n _ s (by omega) h

/-- What `malloc` keeps, the allocation of the buffer keeps; it changes nothing of the stream
otherwise. -/
theorem allocate_rule (hmalloc : ∀ n s, P file.pending s → P file.pending (os.malloc n s).2)
    (h : P file.pending s) :
    P file.pending (allocate os file s).2 ∧ ((allocate os file s).1 = none → file.pending = []) ∧
      ∀ file' ∈ (allocate os file s).1, SameStream file file' ∧ file'.buffer ≠ none ∧
        file'.pending = file.pending := by
  unfold allocate
  cases hbuf : file.buffer with
  | some buf =>
    dsimp only
    refine ⟨h, nofun, fun file' hfile => ?_⟩
    obtain rfl := Option.some.inj hfile
    exact ⟨SameStream.refl file, by simp [hbuf], rfl⟩
  | none =>
    dsimp only
    refine ⟨hmalloc _ s h, fun _ => FILE.pending_none hbuf, fun file' hfile => ?_⟩
    obtain ⟨buf, -, rfl⟩ := Option.map_eq_some_iff.mp hfile
    exact ⟨SameStream.filled _, nofun,
      by rw [FILE.pending_filled, slice_zero, FILE.pending_none hbuf]⟩

/-- What `fwrite` does to a buffered stream, by the `k` bytes that it takes: all, unless a write or
`malloc` has failed. -/
theorem fwrite_rule (hQ : TakeRule os file.fd ptr (size * count) Q G)
    (hmalloc : ∀ n bytes s, Q 0 bytes s → Q 0 bytes (os.malloc n s).2)
    (hnone : ∀ s, Q 0 [] s → G 0 [] s)
    (hopen : file.isOpen = true) (hstream : file.isStream = false) (hfits : size * count < 2 ^ 32)
    (h : Q 0 file.pending s) :
    let r := fwrite os ptr size count file s
    SameStream file r.1.1 ∧ ∃ k, r.2 = k / size ∧
      (k = size * count ∧ Q k r.1.1.pending r.1.2 ∨
        k ≤ size * count ∧ G k r.1.1.pending r.1.2) := by
  unfold fwrite
  rw [Nat.mod_eq_of_lt hfits]
  split
  · rename_i hsize
    rw [hopen] at hsize
    have hzero : size = 0 := by simpa using hsize
    exact ⟨SameStream.refl file, 0, (Nat.zero_div _).symm, .inl ⟨by simp [hzero], h⟩⟩
  dsimp only
  split
  · rename_i hzero
    exact ⟨SameStream.refl file, 0, (Nat.zero_div _).symm, .inl ⟨hzero.symm, h⟩⟩
  rw [if_neg (by simp [hstream])]
  obtain ⟨hkept, hfailed, hfile⟩ := allocate_rule (P := Q 0) (fun n s => hmalloc n _ s) h
  split
  · rename_i heq
    rw [heq] at hkept hfailed
    have hnil := hfailed rfl
    rw [hnil] at hkept
    refine ⟨SameStream.refl file, 0, (Nat.zero_div _).symm, .inr ⟨Nat.zero_le _, ?_⟩⟩
    dsimp only
    rw [hnil]
    exact hnone _ hkept
  · rename_i file' s' heq
    rw [heq] at hkept hfile
    obtain ⟨hsame, hbuffer, hpending⟩ := hfile file' rfl
    have hloop := fwriteLoop_rule hQ 0 (size * count) (Nat.zero_add _) hsame.fd
      (hsame.isOpen.trans hopen) hbuffer
      (hpending ▸ hkept)
    refine ⟨hsame.trans (fwriteLoop_same _ _),
      (fwriteLoop os ptr 0 (size * count) file' s').2, rfl, ?_⟩
    rcases hloop with ⟨hall, htaken⟩ | hstopped
    · left
      exact ⟨hall, hall.symm ▸ htaken⟩
    · exact .inr hstopped

/-! ### Reading and seeking -/

variable {R : σ → Prop}

theorem freadLoop_rule (hread : ∀ n s, R s → R (os.read fd n s).2) (totalBytes readBytes : ℕ)
    (h : R s) :
    R (freadLoop os fd totalBytes readBytes ptr s).2 := by
  induction readBytes, ptr, s using freadLoop.induct os fd totalBytes with
  | case1 readBytes ptr s hlt r hend =>
    rw [freadLoop, dif_pos hlt, dif_pos hend]
    exact hread _ s h
  | case2 readBytes ptr s hlt r hmore ih =>
    rw [freadLoop, dif_pos hlt, dif_neg hmore]
    exact ih (hread _ s h)
  | case3 readBytes ptr s hdone =>
    rw [freadLoop, dif_neg hdone]
    exact h

/-- A read is made with nothing left to write. -/
theorem fread_rule (ptr : Bytes) (size count : ℕ) (hP : WriteRule os file.fd P F)
    (hread : ∀ n s, P [] s → P [] (os.read file.fd n s).2) (hopen : file.isOpen = true)
    (h : P file.pending s) :
    let r := fread os ptr size count file s
    SameStream file r.1.1 ∧ (P r.1.1.pending r.1.2 ∨ F r.1.1.pending r.1.2) := by
  unfold fread
  split
  · exact ⟨SameStream.refl file, .inl h⟩
  dsimp only
  split
  · exact ⟨SameStream.refl file, .inl h⟩
  have hsame : SameStream file (fflush os file s).1.1 := fflush_same
  rcases fflush_rule hP hopen h with ⟨hzero, hnil, hflushed⟩ | ⟨hneg, -, hfailed⟩
  · rw [if_neg (by omega), hsame.fd]
    split
    · split
      · refine ⟨hsame, .inl ?_⟩
        dsimp only
        rw [hnil]
        exact hread _ _ hflushed
      · refine ⟨hsame, .inl ?_⟩
        dsimp only
        rw [hnil]
        exact hread _ _ hflushed
    · refine ⟨hsame, .inl ?_⟩
      dsimp only
      rw [hnil]
      exact freadLoop_rule (R := P []) hread _ _ hflushed
  · rw [if_pos (by omega)]
    exact ⟨hsame, .inr hfailed⟩

theorem fseek_rule (hP : WriteRule os file.fd P F) (pos type : ℤ)
    (hseek : ∀ s, P [] s → P [] (os.seek file.fd pos type s).2) (hopen : file.isOpen = true)
    (h : P file.pending s) :
    let r := fseek os pos type file s
    SameStream file r.1.1 ∧ (P r.1.1.pending r.1.2 ∨ F r.1.1.pending r.1.2) := by
  unfold fseek
  split
  · exact ⟨SameStream.refl file, .inl h⟩
  dsimp only
  have hsame : SameStream file (fflush os file s).1.1 := fflush_same
  rcases fflush_rule hP hopen h with ⟨hzero, hnil, hflushed⟩ | ⟨hneg, -, hfailed⟩
  · rw [if_neg (by omega), hsame.fd]
    refine ⟨hsame, .inl ?_⟩
    dsimp only
    rw [hnil]
    exact hseek _ hflushed
  · rw [if_pos (by omega)]
    exact ⟨hsame, .inr hfailed⟩

/-! ### Runs -/

inductive Call where
  | fwrite (ptr : Bytes) (size count : ℕ)
  | fread (ptr : Bytes) (size count : ℕ)
  | fflush
  | fseek (pos type : ℤ)
  | ftell

/-- The sizes that `fwrite` can count. -/
def Call.Fits : Call → Prop
  | .fwrite _ size count => size * count < 2 ^ 32
  | _ => True

/-- What a call does to a stream, and what it returns. -/
def exec (os : Os σ) (w : FILE × σ) : Call → (FILE × σ) × ℤ
  | .fwrite ptr size count =>
    ((fwrite os ptr size count w.1 w.2).1, (fwrite os ptr size count w.1 w.2).2)
  | .fread ptr size count =>
    ((fread os ptr size count w.1 w.2).1, (fread os ptr size count w.1 w.2).2.1)
  | .fflush => fflush os w.1 w.2
  | .fseek pos type => fseek os pos type w.1 w.2
  | .ftell => ftell os w.1 w.2

/-- The same system calls, with a log of the bytes that `write` has accepted. -/
def Os.logged (os : Os σ) : Os (σ × List UInt8) where
  malloc n s := ((os.malloc n s.1).1, (os.malloc n s.1).2, s.2)
  write fd bytes s :=
    ((os.write fd bytes s.1).1, (os.write fd bytes s.1).2,
      s.2 ++ bytes.take (os.write fd bytes s.1).1.toNat)
  read fd n s := ((os.read fd n s.1).1, (os.read fd n s.1).2, s.2)
  seek fd pos type s := ((os.seek fd pos type s.1).1, (os.seek fd pos type s.1).2, s.2)
  fsize fd s := ((os.fsize fd s.1).1, (os.fsize fd s.1).2, s.2)
  write_le fd bytes s := os.write_le fd bytes s.1
  read_le fd n s := os.read_le fd n s.1

/-- The bytes that a call takes from its caller; what `fwrite` returns is what it takes, in whole
items. -/
def Took : Call × ℤ → List UInt8 → Prop
  | (.fwrite ptr size count, answer), bytes =>
    ∃ k ≤ size * count, bytes = slice ptr 0 k ∧ answer = (k / size : ℕ)
  | _, bytes => bytes = []

/-- What was accepted and what waits is what waited before and what was taken, in order. -/
def NothingLost (os : Os σ) (file : FILE) (s : σ) (calls : List Call) : Prop :=
  ∃ taken, List.Forall₂ Took (Machine.run (exec os.logged) (file, s, []) calls).2 taken ∧
    (Machine.run (exec os.logged) (file, s, []) calls).1.2.2 ++
      (Machine.run (exec os.logged) (file, s, []) calls).1.1.pending = file.pending ++ taken.flatten

/-- A flush writes the first `k` bytes that wait and keeps the others; it fails exactly when there
are others. -/
def KeepsTail (os : Os σ) (file : FILE) (w : σ × List UInt8) : Prop :=
  ∃ k ≤ file.pending.length,
    (fflush os.logged file w).1.2.2 = w.2 ++ file.pending.take k ∧
      (fflush os.logged file w).1.1.pending = file.pending.drop k ∧
        (fflush os.logged file w).2 = if k = file.pending.length then 0 else -1

section Logged

variable {w : σ × List UInt8} {bytes : List UInt8}

theorem logged_writeRule (total : List UInt8) :
    WriteRule os.logged fd (fun bytes w => w.2 ++ bytes = total)
      (fun bytes w => w.2 ++ bytes = total) where
  sent bytes w _ h _ := by
    change w.2 ++ bytes.take (os.write fd bytes w.1).1.toNat ++ bytes.drop
      (os.write fd bytes w.1).1.toNat = total
    rw [List.append_assoc, List.take_append_drop, h]
  failed bytes w _ h hfail := by
    change w.2 ++ bytes.take (os.write fd bytes w.1).1.toNat ++ bytes = total
    have hzero : (os.write fd bytes w.1).1.toNat = 0 := Int.toNat_of_nonpos hfail
    rw [hzero, List.take_zero, List.append_nil, h]

theorem logged_takeRule (before : List UInt8) (total : ℕ) :
    TakeRule os.logged fd ptr total (fun k bytes w => w.2 ++ bytes = before ++ slice ptr 0 k)
      (fun k bytes w => w.2 ++ bytes = before ++ slice ptr 0 k) where
  write k := logged_writeRule (before ++ slice ptr 0 k)
  take k n bytes w _ h := by
    rw [slice_add, Nat.zero_add, ← List.append_assoc, ← List.append_assoc, h]

theorem fflush_keepsTail (hopen : file.isOpen = true) : KeepsTail os file w := by
  have hrule : WriteRule os.logged file.fd
      (fun bytes v => ∃ k ≤ file.pending.length, v.2 = w.2 ++ file.pending.take k ∧
        bytes = file.pending.drop k)
      (fun bytes v => ∃ k ≤ file.pending.length, v.2 = w.2 ++ file.pending.take k ∧
        bytes = file.pending.drop k) := by
    constructor
    · rintro bytes v - ⟨k, hk, hlog, rfl⟩ hpos
      have hle := os.write_le file.fd (file.pending.drop k) v.1
      rw [List.length_drop] at hle
      refine ⟨k + (os.write file.fd (file.pending.drop k) v.1).1.toNat, by omega, ?_,
        by rw [List.drop_drop]; rfl⟩
      change v.2 ++ (file.pending.drop k).take _ = _
      rw [hlog, List.append_assoc, List.take_add]
    · rintro bytes v - ⟨k, hk, hlog, rfl⟩ hfail
      refine ⟨k, hk, ?_, rfl⟩
      change v.2 ++ (file.pending.drop k).take
        (os.write file.fd (file.pending.drop k) v.1).1.toNat = _
      have hzero : (os.write file.fd (file.pending.drop k) v.1).1.toNat = 0 :=
        Int.toNat_of_nonpos hfail
      rw [hzero, List.take_zero, List.append_nil, hlog]
  have hstart : ∃ k ≤ file.pending.length, w.2 = w.2 ++ file.pending.take k ∧
      file.pending = file.pending.drop k :=
    ⟨0, Nat.zero_le _, by simp, by simp⟩
  rcases fflush_rule hrule hopen hstart
    with ⟨hzero, hnil, k, hk, hlog, hrest⟩ | ⟨hneg, hne, k, hk, hlog, hrest⟩
  · have hall := List.drop_eq_nil_iff.mp hrest.symm
    exact ⟨k, hk, hlog, hnil.trans hrest, by rw [if_pos (le_antisymm hk hall), hzero]⟩
  · refine ⟨k, hk, hlog, hrest, ?_⟩
    rw [hrest] at hne
    rw [if_neg fun heq => hne (List.drop_eq_nil_of_le heq.ge), hneg]

theorem ftell_same :
    SameStream file (ftell os file s).1.1 ∧ (ftell os file s).1.1.pending = file.pending := by
  unfold ftell
  split
  · exact ⟨SameStream.refl file, rfl⟩
  split
  · exact ⟨SameStream.refl file, rfl⟩
  · exact ⟨SameStream.refl file, rfl⟩

theorem ftell_log : (ftell os.logged file w).1.2.2 = w.2 := by
  unfold ftell
  split
  · rfl
  split
  · rfl
  dsimp only
  split
  · rfl
  · rfl

/-- One call adds what it takes to what was accepted and what waits. -/
theorem exec_took (hopen : file.isOpen = true) (hstream : file.isStream = false) (call : Call)
    (hfits : call.Fits) :
    SameStream file (exec os.logged (file, w) call).1.1 ∧
    ∃ bytes, Took (call, (exec os.logged (file, w) call).2) bytes ∧
      (exec os.logged (file, w) call).1.2.2 ++ (exec os.logged (file, w) call).1.1.pending =
        w.2 ++ file.pending ++ bytes := by
  cases call with
  | fwrite ptr size count =>
    obtain ⟨hsame, k, hanswer, htook⟩ :=
      fwrite_rule (logged_takeRule (w.2 ++ file.pending) (size * count))
      (fun _ _ _ h => h) (fun _ h => h) hopen hstream hfits (s := w) (by simp)
    refine ⟨hsame, slice ptr 0 k, ?_⟩
    rcases htook with ⟨rfl, htook⟩ | ⟨hk, htook⟩
    · exact ⟨⟨_, le_rfl, rfl, congrArg Nat.cast hanswer⟩, htook⟩
    · exact ⟨⟨k, hk, rfl, congrArg Nat.cast hanswer⟩, htook⟩
  | fread ptr size count =>
    obtain ⟨hsame, hkept⟩ :=
      fread_rule ptr size count (logged_writeRule (w.2 ++ file.pending)) (fun _ _ h => h) hopen rfl
      (s := w)
    refine ⟨hsame, [], rfl, ?_⟩
    rw [List.append_nil]
    exact hkept.elim id id
  | fflush =>
    refine ⟨fflush_same, [], rfl, ?_⟩
    rw [List.append_nil]
    rcases fflush_rule (logged_writeRule (w.2 ++ file.pending)) hopen rfl
      with ⟨-, hnil, hkept⟩ | ⟨-, -, hkept⟩
    · change _ ++ (fflush os.logged file w).1.1.pending = _
      rw [hnil]
      exact hkept
    · exact hkept
  | fseek pos type =>
    obtain ⟨hsame, hkept⟩ :=
      fseek_rule (logged_writeRule (w.2 ++ file.pending)) pos type (fun _ h => h) hopen rfl (s := w)
    refine ⟨hsame, [], rfl, ?_⟩
    rw [List.append_nil]
    exact hkept.elim id id
  | ftell =>
    refine ⟨ftell_same.1, [], rfl, ?_⟩
    rw [List.append_nil]
    change (ftell os.logged file w).1.2.2 ++ (ftell os.logged file w).1.1.pending = _
    rw [ftell_log, ftell_same.2]

end Logged

/-- A stream that began as `file`, after calls that took what is neither lost nor repeated. -/
def Accounted (file : FILE) (history : List (Call × ℤ)) (w : FILE × σ × List UInt8) : Prop :=
  SameStream file w.1 ∧ ∃ taken, List.Forall₂ Took history taken ∧
    w.2.2 ++ w.1.pending = file.pending ++ taken.flatten

theorem exec_accounted (os : Os σ) (hopen : file.isOpen = true) (hstream : file.isStream = false)
    {history : List (Call × ℤ)} {w : FILE × σ × List UInt8} (h : Accounted file history w)
    {call : Call}
    (hfits : call.Fits) : Accounted file (history ++ [(call, (exec os.logged w call).2)])
      (exec os.logged w call).1 := by
  obtain ⟨hsame, taken, htaken, hkept⟩ := h
  obtain ⟨hsame', bytes, htook, hadded⟩ :=
    exec_took (w := w.2) (hsame.isOpen.trans hopen) (hsame.isStream.trans hstream) call hfits
  refine ⟨hsame.trans hsame', taken ++ [bytes], List.rel_append htaken (.cons htook .nil), ?_⟩
  rw [hadded, hkept]
  simp

/-- Buffered output loses and repeats nothing, whatever the writes accept. -/
theorem stream_loses_nothing (os : Os σ) (file : FILE) (s : σ) (calls : List Call)
    (hopen : file.isOpen = true)
    (hstream : file.isStream = false) (hfits : ∀ call ∈ calls, call.Fits) :
    NothingLost os file s calls ∧ ∀ (file' : FILE) (w : σ × List UInt8), file'.isOpen = true →
      KeepsTail os file' w := by
  constructor
  · have hstart : Accounted file [] (file, s, ([] : List UInt8)) :=
      ⟨SameStream.refl file, [], .nil, by simp⟩
    have hrun := Machine.run_history_along hstart
      (fun history w call h (hcall : call.Fits) => exec_accounted os hopen hstream h hcall)
      (Machine.along_of_forall hfits)
    exact hrun.2
  · intro file' w hopen'
    exact fflush_keepsTail hopen'

/-- A file that takes whatever it is given, and holds nothing to read. -/
def sink : Os Unit where
  malloc _ _ := (some fun _ => 0, ())
  write _ bytes _ := (bytes.length, ())
  read _ _ _ := ((0, fun _ => 0), ())
  seek _ _ _ _ := (0, ())
  fsize _ _ := (0, ())
  write_le _ _ _ := le_rfl
  read_le _ n _ := Int.natCast_nonneg n

theorem stream_loses_nothing_sink :
    NothingLost sink (opened ['w'] 3) () [.fwrite (fun _ => 65) 2 5, .fflush, .fseek 0 0] ∧
      ∀ (file : FILE) (w : Unit × List UInt8), file.isOpen = true → KeepsTail sink file w :=
  stream_loses_nothing sink (opened ['w'] 3) () _ rfl rfl (by simp [Call.Fits])

end X86Kernel.Usr
