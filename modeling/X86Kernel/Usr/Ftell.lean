import X86Kernel.Usr.StdioRun

/-! Where `ftell` says that a stream is on its file, before a flush and after it. -/
namespace X86Kernel.Usr

open Slice
open Fs
open Mem (int32)

variable {τ : Type} {fat : Fat τ} {malloc : ℕ → τ → Option Bytes × τ} {flags : ℕ}
  {bytes : List UInt8} {fd : ℤ}
  {s s' : File τ × Option ℕ} {file : FILE}

/-- Opened with `a`. -/
abbrev AppendOnly (flags : ℕ) : Prop := flags &&& fsFlagAppend ≠ 0 ∧ flags &&& fsFlagWriteonly ≠ 0

/-- Opened with `a+`. -/
abbrev AppendPlus (flags : ℕ) : Prop := flags &&& fsFlagAppend ≠ 0 ∧ flags &&& fsFlagWriteonly = 0

/-- The system calls on an open file, where `malloc` is of the library. They leave a mark just after
the last byte that was transferred; a seek moves it, but for a file that is only appended to. -/
def fileOs (fat : Fat τ) (malloc : ℕ → τ → Option Bytes × τ) : Os (File τ × Option ℕ) where
  malloc n s := ((malloc n s.1.volume).1, { s.1 with volume := (malloc n s.1.volume).2 }, s.2)
  write _ bytes s :=
    let r := fsWrite fat s.1 bytes
    (r.1, r.2, if 0 < r.1 then some (s.1.writePos + r.1.toNat) else s.2)
  read _ n s :=
    let r := apiRead fat s.1 n
    (r.1, r.2, if 0 < r.1.1 then some (s.1.currentPos + r.1.1.toNat) else s.2)
  seek _ offset type s :=
    let r := fsSeek s.1 offset type
    (r.1, r.2, if r.1 < 0 ∨ AppendOnly s.1.flags then s.2 else some r.1.toNat)
  fsize _ s := (fsFilesize s.1, s)
  write_le _ bytes _ := fsWrite_le bytes
  read_le _ n _ := apiRead_le n

/-- Where a stream with nothing to write is. -/
def tellPos (file : File τ) : ℕ := if AppendOnly file.flags then file.fileSize else file.currentPos

/-! ### What the calls keep -/

/-- A file with `bytes` to write to it, where no offset is too large for an `int`. -/
structure Steady (flags : ℕ) (bytes : List UInt8) (s : File τ × Option ℕ) : Prop where
  flags : s.1.flags = flags
  pos_le : s.1.currentPos ≤ s.1.fileSize
  size_lt : s.1.fileSize < 2 ^ 31
  next_lt : s.1.writePos + bytes.length < 2 ^ 31
  mark : ∀ p ∈ s.2, p = tellPos s.1

/-- What waits on a stream of mode `a+` goes to where the offset is. -/
def AtEnd (flags : ℕ) (s : File τ × Option ℕ) : Prop :=
  AppendPlus flags → s.1.currentPos = s.1.fileSize

theorem SamePlace.writePos {file file' : File τ} (h : SamePlace file file') :
    file'.writePos = file.writePos := by
  unfold File.writePos
  rw [h.flags, h.currentPos, h.fileSize]

theorem SamePlace.tellPos {file file' : File τ} (h : SamePlace file file') :
    tellPos file' = tellPos file := by
  unfold Usr.tellPos
  rw [h.flags, h.currentPos, h.fileSize]

theorem Steady.same (h : Steady flags bytes s) (hsame : SamePlace s.1 s'.1) (hmark : s'.2 = s.2) :
    Steady flags bytes s' := by
  refine ⟨hsame.flags.trans h.flags, ?_, ?_, ?_, ?_⟩
  · rw [hsame.currentPos, hsame.fileSize]
    exact h.pos_le
  · rw [hsame.fileSize]
    exact h.size_lt
  · rw [SamePlace.writePos hsame]
    exact h.next_lt
  · rw [hmark, SamePlace.tellPos hsame]
    exact h.mark

theorem AtEnd.same (h : AtEnd flags s) (hsame : SamePlace s.1 s'.1) : AtEnd flags s' := by
  intro hplus
  rw [hsame.currentPos, hsame.fileSize]
  exact h hplus

/-- At the end of the file, the next byte goes to where the stream is. -/
theorem Steady.tellPos_eq (h : Steady flags bytes s) (hend : AtEnd flags s) :
    tellPos s.1 = s.1.writePos := by
  unfold tellPos File.writePos
  rw [h.flags]
  by_cases happend : flags &&& fsFlagAppend ≠ 0
  · by_cases hplus : flags &&& fsFlagWriteonly = 0
    · rw [if_neg fun honly => honly.2 hplus, if_pos happend]
      exact hend ⟨happend, hplus⟩
    · rw [if_pos ⟨happend, hplus⟩, if_pos happend]
  · rw [if_neg fun honly => happend honly.1, if_neg happend]

/-- After `n` bytes are written, the next one goes behind them, and the stream is there. -/
theorem sent_place {f f' : File τ} {n : ℕ} (hflags : f'.flags = f.flags)
    (hcur : f'.currentPos = f.writePos + n)
    (hsize : f'.fileSize = max f.fileSize (f.writePos + n)) :
    f'.writePos = f.writePos + n ∧ tellPos f' = f.writePos + n ∧
      (f.flags &&& fsFlagAppend ≠ 0 → f'.currentPos = f'.fileSize) := by
  unfold tellPos
  by_cases happend : f.flags &&& fsFlagAppend ≠ 0
  · have hpos : f.writePos = f.fileSize := if_pos happend
    have hpos' : f'.writePos = f'.fileSize := if_pos (hflags ▸ happend)
    rw [hpos] at hcur hsize ⊢
    rw [hpos']
    refine ⟨by omega, ?_, fun _ => by omega⟩
    split <;> omega
  · have hpos' : f'.writePos = f'.currentPos := if_neg (hflags ▸ happend)
    rw [hflags, if_neg fun honly => happend honly.1, hpos']
    exact ⟨hcur, hcur, fun hno => absurd hno happend⟩

/-- A write moves the place of what is left by what it sends. -/
theorem Steady.sent (h : Steady flags bytes s)
    (hpos : 0 < ((fileOs fat malloc).write fd bytes s).1) :
    let r := (fileOs fat malloc).write fd bytes s
    Steady flags (bytes.drop r.1.toNat) r.2 ∧ AtEnd flags r.2 ∧
      r.2.1.writePos + (bytes.drop r.1.toNat).length = s.1.writePos + bytes.length := by
  have hnext := h.next_lt
  have hsize := h.size_lt
  have hle : (fsWrite fat s.1 bytes).1 ≤ bytes.length := fsWrite_le bytes
  obtain ⟨hflags', hcur', hsize'⟩ := fsWrite_sent hpos (by omega)
  obtain ⟨hplace, htell, hend⟩ := sent_place hflags' hcur' hsize'
  have hmark : ((fileOs fat malloc).write fd bytes s).2.2 =
      some (s.1.writePos + (fsWrite fat s.1 bytes).1.toNat) :=
    if_pos hpos
  have hmoved :
        (fsWrite fat s.1 bytes).2.writePos + (bytes.drop (fsWrite fat s.1 bytes).1.toNat).length =
      s.1.writePos + bytes.length := by
    rw [List.length_drop]
    omega
  refine ⟨⟨hflags'.trans h.flags, ?_, ?_, ?_, ?_⟩, ?_, hmoved⟩
  · change (fsWrite fat s.1 bytes).2.currentPos ≤ (fsWrite fat s.1 bytes).2.fileSize
    omega
  · change (fsWrite fat s.1 bytes).2.fileSize < 2 ^ 31
    omega
  · exact lt_of_eq_of_lt hmoved hnext
  · intro p hp
    rw [hmark] at hp
    obtain rfl := Option.some.inj hp
    exact htell.symm
  · intro hplus
    rw [← h.flags] at hplus
    exact hend hplus.1

theorem write_failed (hfail : ((fileOs fat malloc).write fd bytes s).1 ≤ 0) :
    SamePlace s.1 ((fileOs fat malloc).write fd bytes s).2.1 ∧
    ((fileOs fat malloc).write fd bytes s).2.2 = s.2 :=
  ⟨fsWrite_failed hfail, if_neg (not_lt.mpr hfail)⟩

/-- Another offset in the file, with the mark at it, or, for a file that is only appended to, where
it was. -/
theorem Steady.moved (h : Steady flags [] s) (hflags : s'.1.flags = s.1.flags)
    (hsize : s'.1.fileSize = s.1.fileSize) (hpos : s'.1.currentPos ≤ s.1.fileSize)
    (hmark : ∀ p ∈ s'.2, p = s'.1.currentPos ∧ ¬AppendOnly flags ∨
      s'.2 = s.2 ∧ (AppendOnly flags ∨ s'.1.currentPos = s.1.currentPos)) :
    Steady flags [] s' := by
  have hlt := h.size_lt
  refine ⟨hflags.trans h.flags, hsize ▸ hpos, hsize ▸ hlt, ?_, ?_⟩
  · unfold File.writePos
    split
    · rw [hsize]
      exact hlt
    · exact lt_of_le_of_lt hpos hlt
  · intro p hp
    unfold tellPos
    rw [hflags, h.flags, hsize]
    rcases hmark p hp with ⟨heq, hno⟩ | ⟨hsame, hplace⟩
    · rw [if_neg hno]
      exact heq
    · have hold := h.mark p (hsame ▸ hp)
      unfold tellPos at hold
      rw [h.flags] at hold
      by_cases honly : AppendOnly flags
      · rw [if_pos honly] at hold ⊢
        exact hold
      · rw [if_neg honly] at hold ⊢
        exact hold.trans (hplace.resolve_left honly).symm

theorem Steady.read (h : Steady flags [] s) (n : ℕ) :
    Steady flags [] ((fileOs fat malloc).read fd n s).2 := by
  obtain ⟨hflags', hsize', hcur', hle', hreadable⟩ := apiRead_moves fat n h.pos_le h.size_lt
  apply h.moved hflags' hsize' hle'
  intro p hp
  by_cases hsome : 0 < (apiRead fat s.1 n).1.1
  · left
    have hmark : ((fileOs fat malloc).read fd n s).2.2 =
        some (s.1.currentPos + (apiRead fat s.1 n).1.1.toNat) :=
      if_pos hsome
    rw [hmark] at hp
    obtain rfl := Option.some.inj hp
    refine ⟨hcur'.symm, fun honly => ?_⟩
    have hnone := hreadable (h.flags.symm ▸ honly.2)
    omega
  · right
    refine ⟨if_neg hsome, .inr ?_⟩
    have hzero : (apiRead fat s.1 n).1.1.toNat = 0 := by omega
    rw [hzero] at hcur'
    exact hcur'

theorem Steady.seek (h : Steady flags [] s) (offset type : ℤ) :
    Steady flags [] ((fileOs fat malloc).seek fd offset type s).2 := by
  obtain ⟨hflags', hsize', ⟨hneg, hsame⟩ | ⟨hresult, hle'⟩⟩ := fsSeek_moves offset type h.size_lt
  · apply h.moved hflags' hsize'
    · change (fsSeek s.1 offset type).2.currentPos ≤ s.1.fileSize
      rw [hsame]
      exact h.pos_le
    · intro p _
      right
      refine ⟨if_pos (.inl hneg), .inr ?_⟩
      change (fsSeek s.1 offset type).2.currentPos = s.1.currentPos
      rw [hsame]
  · apply h.moved hflags' hsize' hle'
    intro p hp
    by_cases honly : AppendOnly flags
    · right
      exact ⟨if_pos (.inr (h.flags.symm ▸ honly)), .inl honly⟩
    · left
      have hmark : ((fileOs fat malloc).seek fd offset type s).2.2 =
          some (fsSeek s.1 offset type).1.toNat := by
        apply if_neg
        rw [h.flags]
        omega
      rw [hmark] at hp
      obtain rfl := Option.some.inj hp
      refine ⟨?_, honly⟩
      rw [hresult]
      rfl

theorem Steady.of_bytes (h : Steady flags bytes s) {bytes' : List UInt8}
    (hlt : s.1.writePos + bytes'.length < 2 ^ 31) :
    Steady flags bytes' s := ⟨h.flags, h.pos_le, h.size_lt, hlt, h.mark⟩

theorem Steady.tellPos_lt (h : Steady flags bytes s) (hend : bytes ≠ [] → AtEnd flags s) :
    tellPos s.1 + bytes.length < 2 ^ 31 := by
  have hpos := h.pos_le
  have hsize := h.size_lt
  by_cases hnil : bytes = []
  · rw [hnil, List.length_nil]
    unfold tellPos
    split <;> omega
  · rw [h.tellPos_eq (hend hnil)]
    exact h.next_lt

/-! ### Flushes -/

/-- A file that `bytes` can be written to: what waits for a stream of mode `a+` waits at the end of
the file. -/
def Ready (flags : ℕ) (bytes : List UInt8) (s : File τ × Option ℕ) : Prop :=
  Steady flags bytes s ∧ (bytes ≠ [] → AtEnd flags s)

theorem Ready.failed (h : Ready flags bytes s)
    (hfail : ((fileOs fat malloc).write fd bytes s).1 ≤ 0) :
    Ready flags bytes ((fileOs fat malloc).write fd bytes s).2 := by
  obtain ⟨hsame, hmark⟩ := write_failed hfail
  exact ⟨h.1.same hsame hmark, fun hne => (h.2 hne).same hsame⟩

theorem ready_writeRule (fat : Fat τ) (malloc : ℕ → τ → Option Bytes × τ) (flags : ℕ) :
    WriteRule (fileOs fat malloc) fd (Ready flags) (Ready flags) where
  sent _ _ _ h hpos := ⟨(h.1.sent hpos).1, fun _ => (h.1.sent hpos).2.1⟩
  failed _ _ _ h hfail := h.failed hfail

/-- The place of the stream, which a write does not change. -/
theorem placed_writeRule (fat : Fat τ) (malloc : ℕ → τ → Option Bytes × τ) (flags place : ℕ) :
    WriteRule (fileOs fat malloc) fd
      (fun bytes s => Ready flags bytes s ∧ tellPos s.1 + bytes.length = place)
      (fun bytes s => Ready flags bytes s ∧ tellPos s.1 + bytes.length = place) where
  sent bytes s hne h hpos := by
    obtain ⟨⟨hsteady, hend⟩, hplace⟩ := h
    obtain ⟨hsteady', hend', hmoved⟩ := hsteady.sent hpos
    refine ⟨⟨hsteady', fun _ => hend'⟩, ?_⟩
    rw [hsteady'.tellPos_eq hend', hmoved, ← hsteady.tellPos_eq (hend hne), hplace]
  failed bytes s _ h hfail := by
    refine ⟨h.1.failed hfail, ?_⟩
    rw [SamePlace.tellPos (write_failed hfail).1, h.2]

/-- The modes that `fopen` takes. -/
def modes : List (List Char) := [['r'], ['r', '+'], ['w'], ['w', '+'], ['a'], ['a', '+']]

variable {mode : List Char} {w : FILE × File τ × Option ℕ}

theorem ftell_mode (hmode : mode ∈ modes) :
    ('a' ∈ mode.take 3 ∧ '+' ∉ mode.take 3) ↔ AppendOnly (fopenFlags mode) := by
  revert mode
  decide

theorem writable_of_appendPlus (hmode : mode ∈ modes) (hplus : AppendPlus (fopenFlags mode)) :
    fopenFlags mode &&& fsFlagReadonly = 0 := by
  revert mode
  decide

/-- A stream that was opened with `mode`, and its file. -/
structure Follows (mode : List Char) (w : FILE × File τ × Option ℕ) : Prop where
  isOpen : w.1.isOpen = true
  isStream : w.1.isStream = false
  modeKept : w.1.mode = mode.take 3
  ready : Ready (fopenFlags mode) w.1.pending w.2

theorem Follows.same (h : Follows mode w) {file : FILE} (hsame : SameStream w.1 file)
    (hready : Ready (fopenFlags mode) file.pending s) : Follows mode (file, s) :=
  ⟨hsame.isOpen.trans h.isOpen, hsame.isStream.trans h.isStream,
    hsame.mode.trans h.modeKept, hready⟩

/-- `ftell` gives the place of the stream, and keeps it there. -/
theorem Follows.ftell_eq (fat : Fat τ) (malloc : ℕ → τ → Option Bytes × τ) (h : Follows mode w)
    (hmode : mode ∈ modes) :
    let t := ftell (fileOs fat malloc) w.1 w.2
    t.2 = (tellPos w.2.1 + w.1.pending.length : ℕ) ∧ (t.1.1 = w.1 ∧ t.1.2.1 = w.2.1) ∧
    Follows mode t.1 := by
  have hsteady := h.ready.1
  have hlt := hsteady.tellPos_lt h.ready.2
  have hsum := int32_natCast hlt
  rw [Nat.cast_add, FILE.length_pending] at hsum
  unfold ftell
  rw [if_neg (by simp [h.isOpen]), if_neg (by simp [h.isStream]), h.modeKept]
  dsimp only
  by_cases honly : AppendOnly (fopenFlags mode)
  · have hplace : tellPos w.2.1 = w.2.1.fileSize := if_pos (hsteady.flags.symm ▸ honly)
    have hsize : (fileOs fat malloc).fsize w.1.fd w.2 = ((w.2.1.fileSize : ℤ), w.2) := by
      unfold fileOs
      dsimp only
      rw [fsFilesize_eq hsteady.size_lt]
    rw [if_pos ((ftell_mode hmode).mpr honly), hsize, if_neg (by omega), ← hplace, hsum]
    exact ⟨by simp, ⟨rfl, rfl⟩, h⟩
  · have hplace : tellPos w.2.1 = w.2.1.currentPos := if_neg (hsteady.flags.symm ▸ honly)
    have hcur := fsSeek_cur hsteady.pos_le hsteady.size_lt
    have hseek : (fileOs fat malloc).seek w.1.fd 0 seekCur w.2 =
        ((w.2.1.currentPos : ℤ), w.2.1, some w.2.1.currentPos) := by
      unfold fileOs seekCur
      dsimp only
      rw [hcur, if_neg (by rw [hsteady.flags]; omega), Int.toNat_natCast]
    rw [if_neg ((ftell_mode hmode).not.mpr honly), hseek, if_neg (by omega), ← hplace, hsum]
    refine ⟨by simp, ⟨rfl, rfl⟩, h.same (SameStream.refl w.1) ⟨?_, h.ready.2⟩⟩
    refine ⟨hsteady.flags, hsteady.pos_le, hsteady.size_lt, hsteady.next_lt, fun p hp => ?_⟩
    exact (Option.some.inj hp).symm

/-- After a flush that succeeds, the stream is where it was, and the mark is there too. -/
theorem Follows.flushed (fat : Fat τ) (malloc : ℕ → τ → Option Bytes × τ) (h : Follows mode w) :
    let f := fflush (fileOs fat malloc) w.1 w.2
    Follows mode f.1 ∧ tellPos f.1.2.1 + f.1.1.pending.length = tellPos w.2.1 + w.1.pending.length ∧
      (f.2 = 0 → f.1.1.pending = []) := by
  have hsame : SameStream w.1 (fflush (fileOs fat malloc) w.1 w.2).1.1 := fflush_same
  rcases fflush_rule (placed_writeRule fat malloc _ _) h.isOpen ⟨h.ready, rfl⟩ with
    ⟨-, hnil, hready, hplace⟩ | ⟨hneg, -, hready, hplace⟩
  · refine ⟨h.same hsame (hnil.symm ▸ hready), ?_, fun _ => hnil⟩
    rw [hnil]
    exact hplace
  · exact ⟨h.same hsame hready, hplace, fun hzero => absurd hzero (by rw [hneg]; norm_num)⟩

/-- Where a flush succeeds, `ftell` returns the same before it and after it: the offset of the
mark. -/
def FtellAgrees (os : Os (File τ × Option ℕ)) (w : FILE × File τ × Option ℕ) : Prop :=
  let before := ftell os w.1 w.2
  let flush := fflush os before.1.1 before.1.2
  let after := ftell os flush.1.1 flush.1.2
  flush.2 = 0 → after.2 = before.2 ∧ ∀ p ∈ flush.1.2.2, after.2 = p

theorem Follows.ftellAgrees (fat : Fat τ) (malloc : ℕ → τ → Option Bytes × τ) (h : Follows mode w)
    (hmode : mode ∈ modes) : FtellAgrees (fileOs fat malloc) w := by
  obtain ⟨hbefore, ⟨hfile, hplace⟩, hfollows⟩ := h.ftell_eq fat malloc hmode
  obtain ⟨hfollows', hplace', hnil⟩ := hfollows.flushed fat malloc
  obtain ⟨hafter, -⟩ := hfollows'.ftell_eq fat malloc hmode
  have hsame : tellPos (ftell (fileOs fat malloc) w.1 w.2).1.2.1 +
      (ftell (fileOs fat malloc) w.1 w.2).1.1.pending.length =
        tellPos w.2.1 + w.1.pending.length := by
    rw [hfile, hplace]
  intro hzero
  constructor
  · exact hafter.trans ((congrArg Nat.cast (hplace'.trans hsame)).trans hbefore.symm)
  · intro p hp
    rw [hafter, hnil hzero, List.length_nil, Nat.add_zero, hfollows'.ready.1.mark p hp]

/-! ### Runs -/

/-- The calls after which `ftell` is right: offsets stay an `int`, and a write that begins to fill
the buffer of a stream of mode `a+` finds the offset at the end of the file, or is so long that it
flushes. -/
def Meets (fat : Fat τ) (w : FILE × File τ × Option ℕ) : Call → Prop
  | .fwrite _ size count =>
    w.2.1.writePos + w.1.bufferPos + size * count < 2 ^ 31 ∧
      (AppendPlus w.2.1.flags → w.1.bufferPos = 0 → size * count = 0 ∨
        w.2.1.currentPos = w.2.1.fileSize ∨
        stdioBufferSize < size * count ∧ fat.Writes)
  | _ => True

/-- While `fwrite` has taken `k` bytes: the offset is at the end, or no byte has left the buffer
yet, and one will. -/
def Taking (fat : Fat τ) (flags start total k : ℕ) (bytes : List UInt8)
    (s : File τ × Option ℕ) : Prop :=
  Steady flags bytes s ∧ s.1.writePos + bytes.length = start + k ∧
    (AtEnd flags s ∨ AppendPlus flags ∧ bytes.length = k ∧ stdioBufferSize < total ∧ fat.Writes)

theorem taking_takeRule (fat : Fat τ) (malloc : ℕ → τ → Option Bytes × τ) {ptr : Bytes}
    {start total : ℕ} (hmode : mode ∈ modes) (hlt : start + total < 2 ^ 31) :
    TakeRule (fileOs fat malloc) fd ptr total (Taking fat (fopenFlags mode) start total)
      (fun _ => Ready (fopenFlags mode)) where
  write k := by
    constructor
    · intro bytes s hne h hpos
      obtain ⟨hsteady, hmoved, -⟩ := h
      obtain ⟨hsteady', hend', hmoved'⟩ := hsteady.sent hpos
      exact ⟨hsteady', hmoved'.trans hmoved, .inl hend'⟩
    · intro bytes s hne h hfail
      obtain ⟨hsteady, -, hend | ⟨hplus, -, -, hwrites⟩⟩ := h
      · exact Ready.failed ⟨hsteady, fun _ => hend⟩ hfail
      · have hwritable := writable_of_appendPlus hmode hplus
        rw [← hsteady.flags] at hwritable
        have hpos := fsWrite_pos hwrites hwritable hne
        exact absurd hfail (not_le.mpr hpos)
  take k n bytes s hk h := by
    obtain ⟨hsteady, hmoved, hend⟩ := h
    have hplace : s.1.writePos + (bytes ++ slice ptr k n).length = start + (k + n) := by
      rw [List.length_append, length_slice]
      omega
    refine ⟨hsteady.of_bytes (by omega), hplace, hend.imp_right ?_⟩
    rintro ⟨hplus, hlength, hlong⟩
    exact ⟨hplus, by rw [List.length_append, length_slice, hlength], hlong⟩

theorem fwrite_zero {σ : Type} {os : Os σ} {s : σ} (ptr : Bytes) {size count : ℕ}
    (h : size * count = 0) :
    (fwrite os ptr size count file s).1 = (file, s) := by
  unfold fwrite
  rw [h]
  simp

theorem Follows.after_fwrite (fat : Fat τ) (malloc : ℕ → τ → Option Bytes × τ) (h : Follows mode w)
    (hmode : mode ∈ modes)
    {ptr : Bytes} {size count : ℕ} (hmeets : Meets fat w (.fwrite ptr size count)) :
    Follows mode (fwrite (fileOs fat malloc) ptr size count w.1 w.2).1 := by
  obtain ⟨hlt, hplus⟩ := hmeets
  obtain ⟨hsteady, hend⟩ := h.ready
  by_cases hzero : size * count = 0
  · rw [fwrite_zero ptr hzero]
    exact h
  have hstart : Taking fat (fopenFlags mode) (w.2.1.writePos + w.1.bufferPos)
      (size * count) 0 w.1.pending w.2 := by
    refine ⟨hsteady, by rw [FILE.length_pending, Nat.add_zero], ?_⟩
    by_cases hnil : w.1.pending = []
    · have hempty : w.1.bufferPos = 0 := by rw [← FILE.length_pending, hnil, List.length_nil]
      by_cases hmode' : AppendPlus (fopenFlags mode)
      · rw [hsteady.flags] at hplus
        rcases (hplus hmode' hempty).resolve_left hzero with hatEnd | hlong
        · exact .inl fun _ => hatEnd
        · exact .inr ⟨hmode', by rw [hnil, List.length_nil], hlong⟩
      · exact .inl fun hno => absurd hno hmode'
    · exact .inl (hend hnil)
  obtain ⟨hsame, k, -, htaken⟩ := fwrite_rule (taking_takeRule fat malloc hmode hlt)
    (fun _ _ _ ht => ⟨ht.1.same ⟨rfl, rfl, rfl⟩ rfl, ht.2⟩)
      (fun _ ht => ⟨ht.1, fun hne => absurd rfl hne⟩)
    h.isOpen h.isStream (by omega) hstart
  rcases htaken with ⟨rfl, hsteady', -, hend'⟩ | ⟨-, hready⟩
  · refine h.same hsame ⟨hsteady', fun _ => hend'.resolve_right ?_⟩
    -- the buffer is too small to hold what a long write has taken
    rintro ⟨-, hlength, hlong, -⟩
    rw [FILE.length_pending] at hlength
    have hle := (fwrite (fileOs fat malloc) ptr size count w.1 w.2).1.1.pos_le
    omega
  · exact h.same hsame hready

/-- Every call that meets the condition keeps the stream and its file together. -/
theorem Follows.after_exec (fat : Fat τ) (malloc : ℕ → τ → Option Bytes × τ) (h : Follows mode w)
    (hmode : mode ∈ modes) (call : Call) (hmeets : Meets fat w call) :
    Follows mode (exec (fileOs fat malloc) w call).1 := by
  cases call with
  | fwrite ptr size count => exact h.after_fwrite fat malloc hmode hmeets
  | fread ptr size count =>
    have hread : ∀ n s, Ready (fopenFlags mode) [] s →
        Ready (fopenFlags mode) [] ((fileOs fat malloc).read w.1.fd n s).2 :=
      fun n s hs => ⟨hs.1.read n, fun hne => absurd rfl hne⟩
    obtain ⟨hsame, hready⟩ :=
      fread_rule ptr size count (ready_writeRule fat malloc _) hread h.isOpen h.ready
    exact h.same hsame (hready.elim id id)
  | fflush => exact (h.flushed fat malloc).1
  | fseek pos type =>
    have hseek : ∀ s, Ready (fopenFlags mode) [] s →
        Ready (fopenFlags mode) [] ((fileOs fat malloc).seek w.1.fd pos type s).2 :=
      fun s hs => ⟨hs.1.seek pos type, fun hne => absurd rfl hne⟩
    obtain ⟨hsame, hready⟩ :=
      fseek_rule (ready_writeRule fat malloc _) pos type hseek h.isOpen h.ready
    exact h.same hsame (hready.elim id id)
  | ftell => exact (h.ftell_eq fat malloc hmode).2.2

theorem opened_follows {entry : Option ℕ} {v : τ} {f : File τ}
    (hopen : fsOpen (fopenFlags mode) entry v = some f)
    (hsize : f.fileSize < 2 ^ 31) : Follows mode (opened mode fd, f, none) := by
  have hfile : f.flags = fopenFlags mode ∧ f.currentPos = 0 := by
    unfold fsOpen at hopen
    split at hopen
    · rw [Option.ite_none_right_eq_some] at hopen
      obtain rfl := Option.some.inj hopen.2
      exact ⟨rfl, rfl⟩
    · split at hopen
      · obtain rfl := Option.some.inj hopen
        exact ⟨rfl, rfl⟩
      · obtain rfl := Option.some.inj hopen
        exact ⟨rfl, rfl⟩
  have hnext : f.writePos < 2 ^ 31 := by
    unfold File.writePos
    split <;> omega
  have hpos : f.currentPos ≤ f.fileSize := hfile.2 ▸ Nat.zero_le _
  exact ⟨rfl, rfl, rfl, ⟨hfile.1, hpos, hsize, hnext, nofun⟩, fun hne => absurd rfl hne⟩

/-- In a run whose calls all meet the condition, `ftell` is right in every state. -/
theorem run_ftellAgrees (fat : Fat τ) (malloc : ℕ → τ → Option Bytes × τ) (hmode : mode ∈ modes)
    (entry : Option ℕ) (v : τ) (f : File τ) (hopen : fsOpen (fopenFlags mode) entry v = some f)
    (hsize : f.fileSize < 2 ^ 31) (fd : ℤ) (calls : List Call)
    (hmeets : Machine.Along (exec (fileOs fat malloc)) (Meets fat)
      (opened mode fd, f, none) calls) :
    FtellAgrees (fileOs fat malloc)
      (Machine.run (exec (fileOs fat malloc)) (opened mode fd, f, none) calls).1 := by
  have hstep : ∀ w call, Follows mode w → Meets fat w call →
      Follows mode (exec (fileOs fat malloc) w call).1 :=
    fun w call h hcall => h.after_exec fat malloc hmode call hcall
  have hrun := Machine.run_invariant_along (opened_follows hopen hsize) hstep hmeets
  exact hrun.ftellAgrees fat malloc hmode

/-- A volume that stores whatever it is given, and reads zeros. -/
def wholeFat : Fat Unit where
  fatWriteFileAt _ bytes _ := (bytes.length, ())
  fatReadFileUser _ size _ := ((size, fun _ => 0), ())
  write_le _ _ _ := le_rfl
  read_le _ _ _ := le_rfl

def heap (_ : ℕ) (_ : Unit) : Option Bytes × Unit := (some fun _ => 0, ())

theorem run_ftellAgrees_seekEnd : FtellAgrees (fileOs wholeFat heap)
    (Machine.run (exec (fileOs wholeFat heap)) (opened ['a', '+'] 3, ⟨24, 0, 100, ()⟩, none)
      [.fseek 0 2, .fwrite (fun _ => 65) 1 10]).1 := by
  apply run_ftellAgrees wholeFat heap (by decide) (some 100) () ⟨24, 0, 100, ()⟩ rfl (by decide)
  have hatEnd : Meets wholeFat
        (exec (fileOs wholeFat heap) (opened ['a', '+'] 3, ⟨24, 0, 100, ()⟩, none) (.fseek 0 2)).1
      (.fwrite (fun _ => 65) 1 10) :=
        ⟨by decide +kernel, fun _ _ => .inr (.inl (by decide +kernel))⟩
  exact ⟨trivial, hatEnd, trivial⟩

/-- In mode `a+`, a byte waits for the end of the file while `ftell` counts it from its start. -/
theorem appendPlus_disagrees :
    ¬∀ mode ∈ modes, ∀ (entry : Option ℕ) (f : File Unit),
      fsOpen (fopenFlags mode) entry () = some f →
      ∀ (fd : ℤ) (calls : List Call), FtellAgrees (fileOs wholeFat heap)
        (Machine.run (exec (fileOs wholeFat heap)) (opened mode fd, f, none) calls).1 := by
  intro h
  have hagree := h ['a', '+'] (by decide) (some 1) ⟨24, 0, 1, ()⟩ rfl 3 [.fwrite (fun _ => 65) 1 1]
  exact absurd (hagree (by decide +kernel)).1 (by decide +kernel)

end X86Kernel.Usr
