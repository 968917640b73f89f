import X86Kernel.Lib.Gives
import X86Kernel.Strings.Numbers

/-! `vsnprintf` of `string.c`: it stays inside of its buffers and stores the start of the whole
expansion. -/
namespace X86Kernel.Strings

open Mem (int32 int32_of_bounds)
open Slice (slice)
open Traced (read write Bytes Access Sat)

/-- A string up to its NUL, which is in memory. -/
abbrev Str := { s : List UInt8 // 0 ∉ s ∧ s.length < 2 ^ 32 }

/-- What `va_arg` takes: 32 bits, or a string or `NULL`. -/
inductive Arg where
  | word (w : UInt32)
  | str (s : Option Str)

/-- The search for the end of a string. A string that has none within `fuel` characters leaves the
buffer. -/
def strEnd : ℕ → ℕ → Traced ℕ
  | 0, ptr => pure ptr
  | fuel + 1, ptr => do
    if (← read ptr) = 0 then pure ptr else strEnd fuel (ptr + 1)

/-- The loop of `strncat` that appends, and the NUL behind it. -/
def copyChars : ℕ → List UInt8 → ℕ → Traced Unit
  | ptr, c :: src, size + 1 => do
    write ptr c
    copyChars (ptr + 1) src size
  | ptr, _, _ => write ptr 0

/-- `strncat` to a buffer of `fuel` bytes. -/
def strncat (fuel : ℕ) (src : List UInt8) (size : ℕ) : Traced Unit := do
  let ptr ← strEnd fuel 0
  copyChars ptr src size

/-- A string that is read up to its NUL, from a buffer of `fuel` more bytes. -/
def cString : ℕ → ℕ → Traced (List UInt8)
  | 0, ptr => do
    let _ ← read ptr
    pure []
  | fuel + 1, ptr => do
    let c ← read ptr
    if c = 0 then pure []
    else
      let rest ← cString fuel (ptr + 1)
      pure (c :: rest)

/-- The variables of `vsnprintf`, with the accesses to its two buffers so far. -/
structure Printing where
  buffer : Bytes
  tmp : Bytes
  args : List Arg
  remaining : ℕ
  bufferLog : List Access
  tmpLog : List Access

abbrev Printf := StateT Printing Option

def onBuffer {α : Type} (m : Traced α) : Printf α := fun s =>
  some ((m s.buffer).value,
    { s with buffer := (m s.buffer).mem, bufferLog := s.bufferLog ++ (m s.buffer).log })

def onTmp {α : Type} (m : Traced α) : Printf α := fun s =>
  some ((m s.tmp).value, { s with tmp := (m s.tmp).mem, tmpLog := s.tmpLog ++ (m s.tmp).log })

/-- The next argument, where it is a number. -/
def takeWord : List Arg → Option (UInt32 × List Arg)
  | .word w :: args => some (w, args)
  | _ => none

def takeStr : List Arg → Option (Option Str × List Arg)
  | .str s :: args => some (s, args)
  | _ => none

def vaWord : Printf UInt32 := fun s => (takeWord s.args).map fun (w, args) => (w, { s with args })

def vaStr : Printf (Option Str) := fun s => (takeStr s.args).map fun (str, args) =>
  (str, { s with args })

/-- `tmp[20]` -/
def tmpSize : ℕ := 20

/-- `append = tmp`, once it is written. -/
def viaTmp (m : Traced Unit) : Printf (Option (List UInt8)) := onTmp do
  m
  let text ← cString tmpSize 0
  pure (some text)

/-- An append, and what then remains. -/
def appendText (size : ℕ) (text : List UInt8) : Printf Unit := do
  let s ← get
  onBuffer (strncat size text s.remaining)
  modify fun s => { s with remaining := s.remaining - if text.length < s.remaining then text.length
    else s.remaining }

/-- What a build leaves in `tmp` for the least `int`, where C does not define what `inttostr` does:
some text that fits. -/
structure LeastText where
  text : List UInt8
  ne_nul : 0 ∉ text
  length_lt : text.length < tmpSize

/-- `inttostr`, with what a build makes of the least `int`. -/
def printI (least : LeastText) (i : Int32) : Traced Unit :=
  (inttostr i).getD (copyChars 0 least.text least.text.length)

/-- The text that it prints. -/
def printedI (least : LeastText) (i : Int32) : List UInt8 :=
  if i = Int32.minValue then least.text else intText i.toInt

section

variable (least : LeastText)

/-- The `switch` on the character behind a `%`. -/
def directive (size : ℕ) (conv : UInt8) : Printf (Option (List UInt8)) := do
  if conv = ch 'i' then
    let i ← vaWord
    viaTmp (printI least i.toInt32)
  else if conv = ch 'u' then
    let u ← vaWord
    viaTmp (uinttostr u)
  else if conv = ch 'h' then
    let h ← vaWord
    viaTmp (uinttohexstr h)
  else if conv = ch 's' then
    let s ← vaStr
    pure (s.map Subtype.val)
  else if conv = ch 'c' then
    let c ← vaWord
    viaTmp do
      write 0 c.toUInt8
      write 1 0
  else if conv = ch 'p' then
    let val ← vaWord
    appendText size [ch '0', ch 'x']
    viaTmp (uinttohexstr val)
  else
    viaTmp do
      write 0 (ch '%')
      write 1 conv
      write 2 0

/-- Any other character. -/
def literal (size : ℕ) (c : UInt8) : Printf Unit := do
  let text ← viaTmp do
    write 0 c
    write 1 0
  let s ← get
  onBuffer (strncat size (text.getD []) s.remaining)
  modify fun s => { s with remaining := if s.remaining > 0 then s.remaining - 1 else s.remaining }

/-- The loop over the format. -/
def vsnprintfLoop (size : ℕ) : List UInt8 → Printf Unit
  | [] => pure ()
  | [c] => do
    let s ← get
    if s.remaining > 0 then literal size c
  | c :: conv :: pfmt => do
    let s ← get
    if s.remaining > 0 then
      if c = ch '%' then
        match ← directive least size conv with
        | none => pure ()
        | some append => appendText size append
        vsnprintfLoop size pfmt
      else
        literal size c
        vsnprintfLoop size (conv :: pfmt)

/-- The `int` returned, and the variables in the end. -/
def vsnprintf (buffer tmp : Bytes) (size : ℕ) (format : List UInt8) (args : List Arg) :
    Option (ℤ × Printing) :=
  let start : Printf Unit := do
    onBuffer (write 0 0)
    vsnprintfLoop least size format
  (start ⟨buffer, tmp, args, (size + (2 ^ 32 - 1)) % 2 ^ 32, [], []⟩).map fun (_, s) =>
    (int32 (size - s.remaining - 1), s)

end

/-! ### Strings in a buffer -/

variable {least : LeastText} {size : ℕ} {mem : Bytes} {text : List UInt8}

theorem strEnd_sat {fuel : ℕ} (ptr : ℕ) (h : CString.Holds mem ptr text)
    (hfuel : text.length < fuel) (hsize : ptr + text.length < size) :
    Sat size (strEnd fuel ptr) mem fun p mem' => p = ptr + text.length ∧ mem' = mem := by
  induction text generalizing ptr fuel with
  | nil =>
    obtain ⟨fuel, rfl⟩ := Nat.exists_eq_add_of_lt hfuel
    apply Sat.bind (Sat.read hsize)
    rintro _ _ ⟨rfl, rfl⟩
    rw [if_pos h.nul]
    exact Sat.pure ⟨rfl, rfl⟩
  | cons c text ih =>
    obtain ⟨fuel, rfl⟩ := Nat.exists_eq_add_of_lt hfuel
    rw [List.length_cons] at hsize
    apply Sat.bind (Sat.read (by omega))
    rintro _ _ ⟨rfl, rfl⟩
    rw [if_neg h.head_ne_zero]
    have hlt : text.length < (c :: text).length + fuel := by
      rw [List.length_cons]
      omega
    apply (ih (ptr + 1) h.tail hlt (by omega)).mono
    rintro p mem' ⟨rfl, rfl⟩
    exact ⟨by rw [List.length_cons]; omega, rfl⟩

theorem slice_update_snoc {off : ℕ} (h : slice mem 0 off = text) (c : UInt8) :
    slice (Function.update mem off c) 0 (off + 1) = text ++ [c] := by
  rw [Slice.slice_add, ← h]
  congr 1
  · apply Slice.slice_congr
    intro k hk
    rw [Function.update_of_ne (by omega)]
  · change [Function.update mem off c (0 + off + 0)] = [c]
    rw [Nat.add_zero, Nat.zero_add, Function.update_self]

theorem write_nul_sat (hslice : slice mem 0 text.length = text) (hne : 0 ∉ text)
    (hsize : text.length < size) :
    Sat size (write text.length 0) mem fun _ mem' => Holds mem' text := by
  apply (Sat.write hsize).mono
  rintro _ _ rfl
  apply holds_of_slice
  · rw [← hslice, Slice.length_slice]
    apply Slice.slice_congr
    intro k hk
    rw [Function.update_of_ne (by omega)]
  · exact Function.update_self ..
  · exact hne

theorem copyChars_sat (src : List UInt8) (n : ℕ) (hslice : slice mem 0 text.length = text)
    (hne : 0 ∉ text) (hsrc : 0 ∉ src) (hsize : text.length + (src.take n).length < size) :
    Sat size (copyChars text.length src n) mem fun _ mem' => Holds mem' (text ++ src.take n) := by
  have hlt : text.length < size := by omega
  induction src generalizing text n mem with
  | nil =>
    have hcopy : copyChars text.length [] n = write text.length 0 := by cases n <;> rfl
    rw [List.take_nil, List.append_nil, hcopy]
    exact write_nul_sat hslice hne hlt
  | cons c src ih =>
    cases n with
    | zero =>
      rw [List.take_zero, List.append_nil]
      exact write_nul_sat hslice hne hlt
    | succ n =>
      rw [List.take_succ_cons, List.length_cons] at hsize
      apply Sat.bind (Sat.write (by omega))
      rintro _ _ rfl
      have hlength : (text ++ [c]).length = text.length + 1 := by
        rw [List.length_append, List.length_singleton]
      have hslice' :
          slice (Function.update mem text.length c) 0 (text ++ [c]).length = text ++ [c] := by
        rw [hlength]
        exact slice_update_snoc hslice c
      have hne' : 0 ∉ text ++ [c] := by
        intro hmem
        rcases List.mem_append.mp hmem with hmem | hmem
        · exact hne hmem
        · exact hsrc (List.mem_singleton.mp hmem ▸ .head _)
      have hstep := ih n hslice' hne' (fun hmem => hsrc (.tail _ hmem)) (by omega) (by omega)
      rw [hlength] at hstep
      apply hstep.mono
      intro _ _ hholds
      rwa [List.append_assoc] at hholds

theorem strncat_sat (src : List UInt8) (n : ℕ) (h : Holds mem text) (hsrc : 0 ∉ src)
    (hsize : text.length + (src.take n).length < size) :
    Sat size (strncat size src n) mem fun _ mem' => Holds mem' (text ++ src.take n) := by
  apply Sat.bind (strEnd_sat 0 h (show text.length < size by omega) (by omega))
  rintro _ _ ⟨rfl, rfl⟩
  rw [Nat.zero_add]
  exact copyChars_sat src n h.slice_eq h.string hsrc hsize

theorem cString_sat {fuel : ℕ} (ptr : ℕ) (h : CString.Holds mem ptr text)
    (hfuel : text.length < fuel) (hsize : ptr + text.length < size) :
    Sat size (cString fuel ptr) mem fun l _ => l = text := by
  induction text generalizing ptr fuel with
  | nil =>
    obtain ⟨fuel, rfl⟩ := Nat.exists_eq_add_of_lt hfuel
    apply Sat.bind (Sat.read hsize)
    rintro _ _ ⟨rfl, rfl⟩
    rw [if_pos h.nul]
    exact Sat.pure rfl
  | cons c text ih =>
    obtain ⟨fuel, rfl⟩ := Nat.exists_eq_add_of_lt hfuel
    rw [List.length_cons] at hsize
    have hlt : text.length < (c :: text).length + fuel := by
      rw [List.length_cons]
      omega
    apply Sat.bind (Sat.read (by omega))
    rintro _ _ ⟨rfl, rfl⟩
    rw [if_neg h.head_ne_zero]
    apply Sat.bind (ih (ptr + 1) h.tail hlt (by omega))
    rintro _ _ rfl
    rw [h.head]
    exact Sat.pure rfl

/-! ### The expansion -/

/-- What the character behind a `%` stands for, and the arguments that are left. -/
def piece (least : LeastText) (conv : UInt8) (args : List Arg) : Option (List UInt8 × List Arg) :=
  if conv = ch 'i' then (takeWord args).map fun (w, args) => (printedI least w.toInt32, args)
  else if conv = ch 'u' then (takeWord args).map fun (w, args) => (decimal w.toNat, args)
  else if conv = ch 'h' then (takeWord args).map fun (w, args) => (hexadecimal w.toNat, args)
  else if conv = ch 's' then (takeStr args).map fun (s, args) => ((s.map Subtype.val).getD [], args)
  else if conv = ch 'c' then
    (takeWord args).map fun (w, args) => (if w.toUInt8 = 0 then [] else [w.toUInt8], args)
  else if conv = ch 'p' then
    (takeWord args).map fun (w, args) => ([ch '0', ch 'x'] ++ hexadecimal w.toNat, args)
  else some ([ch '%', conv], args)

/-- The full expansion of a format; none if the arguments do not match it. -/
def expand (least : LeastText) : List UInt8 → List Arg → Option (List UInt8)
  | [], _ => some []
  | [c], _ => some [c]
  | c :: conv :: pfmt, args =>
    if c = ch '%' then (piece least conv args).bind fun (text, args) =>
      (expand least pfmt args).map (text ++ ·)
    else (expand least (conv :: pfmt) args).map (c :: ·)

/-- The variables once the expansion `done` has been appended. -/
structure Filled (size : ℕ) (done : List UInt8) (s : Printing) : Prop where
  holds : Holds s.buffer (done.take (size - 1))
  remaining : s.remaining = size - 1 - done.length
  inBuffer : ∀ a ∈ s.bufferLog, a.off < size
  inTmp : ∀ a ∈ s.tmpLog, a.off < tmpSize

variable {done : List UInt8} {s : Printing}

theorem onBuffer_gives {α : Type} {m : Traced α} {Q : α → Bytes → Prop} (h : Sat size m s.buffer Q)
    (hlog : ∀ a ∈ s.bufferLog, a.off < size) : Gives (onBuffer m) s fun v s' => Q v s'.buffer ∧
      (∀ a ∈ s'.bufferLog, a.off < size) ∧
        s' = { s with buffer := s'.buffer, bufferLog := s'.bufferLog } := by
  refine ⟨_, _, rfl, h.post, ?_, rfl⟩
  intro a ha
  rcases List.mem_append.mp ha with hold | hnew
  · exact hlog a hold
  · exact h.below a hnew

theorem onTmp_gives {α : Type} {m : Traced α} {Q : α → Bytes → Prop} (h : Sat tmpSize m s.tmp Q)
    (hlog : ∀ a ∈ s.tmpLog, a.off < tmpSize) : Gives (onTmp m) s fun v s' => Q v s'.tmp ∧
      (∀ a ∈ s'.tmpLog, a.off < tmpSize) ∧ s' = { s with tmp := s'.tmp, tmpLog := s'.tmpLog } := by
  refine ⟨_, _, rfl, h.post, ?_, rfl⟩
  intro a ha
  rcases List.mem_append.mp ha with hold | hnew
  · exact hlog a hold
  · exact h.below a hnew

/-- A text printed to `tmp` and read from there. -/
theorem viaTmp_gives (h : Filled size done s) {m : Traced Unit}
    (hm : Sat tmpSize m s.tmp fun _ mem => Holds mem text) (hlength : text.length < tmpSize) :
    Gives (viaTmp m) s fun append s' =>
      append = some text ∧ 0 ∉ text ∧ Filled size done s' ∧ s'.args = s.args := by
  have hread : Sat tmpSize (do m; let text ← cString tmpSize 0; pure (some text)) s.tmp
      fun append _ => append = some text ∧ 0 ∉ text := by
    apply Sat.bind hm
    intro _ mem hholds
    apply Sat.bind (cString_sat 0 hholds hlength (by omega))
    rintro _ _ rfl
    exact Sat.pure ⟨rfl, hholds.string⟩
  apply (onTmp_gives hread h.inTmp).mono
  rintro append s' ⟨⟨happend, hne⟩, hlog, hs'⟩
  refine ⟨happend, hne, ⟨?_, ?_, ?_, hlog⟩, ?_⟩
  · rw [hs']
    exact h.holds
  · rw [hs']
    exact h.remaining
  · rw [hs']
    exact h.inBuffer
  · rw [hs']

/-- An append of what fits. -/
theorem append_gives (h : Filled size done s) (hsize : 1 ≤ size) {f : Printing → ℕ} (hne : 0 ∉ text)
    (hf : ∀ s', s'.remaining = s.remaining → f s' = s.remaining - text.length) :
    Gives (do
      onBuffer (strncat size text s.remaining)
      modify fun s => { s with remaining := f s }) s fun _ s' => Filled size (done ++ text) s' ∧
        s'.args = s.args := by
  have hremaining := h.remaining
  have hfit : (done.take (size - 1)).length + (text.take s.remaining).length < size := by
    rw [List.length_take, List.length_take]
    omega
  have htake : done.take (size - 1) ++ text.take s.remaining = (done ++ text).take (size - 1) := by
    rw [List.take_append, hremaining]
  apply Gives.bind (onBuffer_gives (strncat_sat text s.remaining h.holds hne hfit) h.inBuffer)
  rintro _ s' ⟨hholds, hlog, hs'⟩
  rw [htake] at hholds
  have hkept : s'.remaining = s.remaining := by rw [hs']
  apply Gives.modify
  refine ⟨⟨hholds, ?_, hlog, ?_⟩, ?_⟩
  · change f s' = _
    rw [hf s' hkept, hremaining, List.length_append]
    omega
  · change ∀ a ∈ s'.tmpLog, _
    rw [hs']
    exact h.inTmp
  · change s'.args = _
    rw [hs']

theorem appendText_gives (h : Filled size done s) (hsize : 1 ≤ size) (hne : 0 ∉ text) :
    Gives (appendText size text) s fun _ s' =>
      Filled size (done ++ text) s' ∧ s'.args = s.args := by
  apply Gives.get
  apply append_gives h hsize hne
  intro s' hkept
  rw [hkept]
  split_ifs <;> omega

theorem char_sat {c : UInt8} (hc : c ≠ 0) (mem : Bytes) : Sat tmpSize (do
    write 0 c
    write 1 0) mem fun _ mem' => Holds mem' [c] := by
  apply Sat.bind (Sat.write (by decide))
  rintro _ _ rfl
  apply (Sat.write (by decide)).mono
  rintro _ _ rfl
  refine holds_of_slice rfl rfl ?_
  intro hmem
  exact hc (List.mem_singleton.mp hmem).symm

theorem literal_gives (h : Filled size done s) (hsize : 1 ≤ size) (hpos : 0 < s.remaining)
    {c : UInt8} (hc : c ≠ 0) :
    Gives (literal size c) s fun _ s' => Filled size (done ++ [c]) s' ∧ s'.args = s.args := by
  have hlength : [c].length < tmpSize := show 1 < tmpSize by decide
  apply Gives.bind (viaTmp_gives h (char_sat hc s.tmp) hlength)
  rintro _ t ⟨rfl, hne, hfilled, hargs⟩
  have hkept : t.remaining = s.remaining := hfilled.remaining.trans h.remaining.symm
  apply Gives.get
  rw [← hargs]
  apply append_gives hfilled hsize hne
  intro s' hkept'
  rw [hkept', hkept, if_pos hpos, List.length_singleton]

/-- What `strncat` gets of the character behind a `%`; for a `%p`, the start of its text is there
already. -/
def Directed (size : ℕ) (done text : List UInt8) (args : List Arg) (append : Option (List UInt8))
    (s : Printing) : Prop :=
  s.args = args ∧ ∃ before, Filled size (done ++ before) s ∧ text = before ++ append.getD [] ∧
    0 ∉ append.getD []

theorem vaWord_gives {w : UInt32} {args : List Arg} (h : takeWord s.args = some (w, args)) :
    Gives vaWord s fun v s' => v = w ∧ s' = { s with args := args } := by
  refine ⟨w, _, ?_, rfl, rfl⟩
  unfold vaWord
  rw [h]
  rfl

theorem Filled.with_args (h : Filled size done s) (args : List Arg) :
    Filled size done { s with args := args } :=
  ⟨h.holds, h.remaining, h.inBuffer, h.inTmp⟩

/-- A conversion of a number, whose text is printed to `tmp`. -/
theorem word_gives (h : Filled size done s) {w : UInt32} {args : List Arg}
    (hword : takeWord s.args = some (w, args)) {print : UInt32 → Traced Unit}
    (hprint : ∀ mem, Sat tmpSize (print w) mem fun _ mem' => Holds mem' text)
    (hlength : text.length < tmpSize) :
    Gives (do
      let v ← vaWord
      viaTmp (print v)) s (Directed size done text args) := by
  apply Gives.bind (vaWord_gives hword)
  rintro _ _ ⟨rfl, rfl⟩
  apply (viaTmp_gives (h.with_args args) (hprint _) hlength).mono
  rintro append s' ⟨rfl, hne, hfilled, hargs⟩
  refine ⟨hargs, [], ?_, rfl, hne⟩
  rwa [List.append_nil]

theorem length_decimal_le (u : UInt32) : (decimal u.toNat).length ≤ 10 :=
  length_chars_le (by decide) (by decide) (u.toNat_lt.trans (by norm_num))

theorem length_hexadecimal_le (u : UInt32) : (hexadecimal u.toNat).length ≤ 8 :=
  length_chars_le (by decide) (by decide) u.toNat_lt

theorem length_printedI_lt (least : LeastText) (i : Int32) :
    (printedI least i).length < tmpSize := by
  have hlo := i.le_toInt
  have hhi := i.toInt_lt
  have hlength : (decimal i.toInt.natAbs).length ≤ 10 :=
    length_chars_le (by decide) (by decide) (by omega)
  unfold printedI intText
  split_ifs
  · exact least.length_lt
  · rw [List.length_cons]
    unfold tmpSize
    omega
  · unfold tmpSize
    omega

theorem printI_sat (least : LeastText) (i : Int32) (mem : Bytes) :
    Sat tmpSize (printI least i) mem fun _ mem' => Holds mem' (printedI least i) := by
  unfold printI printedI
  split_ifs with hmin
  · subst hmin
    have hlength :
        ([] : List UInt8).length + (least.text.take least.text.length).length < tmpSize := by
      rw [List.take_length, List.length_nil, Nat.zero_add]
      exact least.length_lt
    rw [inttostr_min]
    apply
      (copyChars_sat least.text least.text.length rfl List.not_mem_nil least.ne_nul hlength).mono
    intro _ _ hholds
    rwa [List.take_length, List.nil_append] at hholds
  · obtain ⟨print, hprint, hsat⟩ := inttostr_sat hmin
    rw [hprint]
    exact hsat tmpSize mem (by decide)

/-- A character that is written to `tmp`, where the NUL is no text. -/
theorem charArg_sat (c : UInt8) (mem : Bytes) : Sat tmpSize (do
    write 0 c
    write 1 0) mem fun _ mem' => Holds mem' (if c = 0 then [] else [c]) := by
  by_cases hc : c = 0
  · subst hc
    apply Sat.bind (Sat.write (by decide))
    rintro _ _ rfl
    apply (Sat.write (by decide)).mono
    rintro _ _ rfl
    exact holds_of_slice rfl rfl List.not_mem_nil
  · rw [if_neg hc]
    exact char_sat hc mem

theorem percent_sat {conv : UInt8} (hc : conv ≠ 0) (mem : Bytes) : Sat tmpSize (do
    write 0 (ch '%')
    write 1 conv
    write 2 0) mem fun _ mem' => Holds mem' [ch '%', conv] := by
  apply Sat.bind (Sat.write (by decide))
  rintro _ _ rfl
  apply Sat.bind (Sat.write (by decide))
  rintro _ _ rfl
  apply (Sat.write (by decide)).mono
  rintro _ _ rfl
  refine holds_of_slice rfl rfl ?_
  intro hmem
  rcases List.mem_cons.mp hmem with hzero | hmem
  · exact absurd hzero (by decide)
  · exact hc (List.mem_singleton.mp hmem).symm

theorem directive_gives (h : Filled size done s) (hsize : 1 ≤ size) {conv : UInt8}
    (hconv : conv ≠ 0) {args : List Arg} (hpiece : piece least conv s.args = some (text, args)) :
    Gives (directive least size conv) s (Directed size done text args) := by
  unfold piece at hpiece
  unfold directive
  split_ifs at hpiece ⊢ with hi hu hh hs hc hp
  · obtain ⟨⟨w, rest⟩, hword, heq⟩ := Option.map_eq_some_iff.mp hpiece
    obtain ⟨rfl, rfl⟩ := Prod.mk.inj heq
    exact word_gives h hword (printI_sat least _) (length_printedI_lt least _)
  · obtain ⟨⟨w, rest⟩, hword, heq⟩ := Option.map_eq_some_iff.mp hpiece
    obtain ⟨rfl, rfl⟩ := Prod.mk.inj heq
    have hlength := length_decimal_le w
    exact word_gives h hword (fun mem => uinttostr_sat _ (by decide) mem) (by unfold tmpSize; omega)
  · obtain ⟨⟨w, rest⟩, hword, heq⟩ := Option.map_eq_some_iff.mp hpiece
    obtain ⟨rfl, rfl⟩ := Prod.mk.inj heq
    have hlength := length_hexadecimal_le w
    exact word_gives h hword (fun mem => uinttohexstr_sat _ (by decide) mem)
      (by unfold tmpSize; omega)
  · obtain ⟨⟨str, rest⟩, hstr, heq⟩ := Option.map_eq_some_iff.mp hpiece
    obtain ⟨rfl, rfl⟩ := Prod.mk.inj heq
    refine ⟨str.map Subtype.val, { s with args := rest }, ?_, rfl, [], ?_, rfl, ?_⟩
    · change (vaStr s >>= fun p => _) = _
      unfold vaStr
      rw [hstr]
      rfl
    · rw [List.append_nil]
      exact h.with_args rest
    · cases str with
      | none => exact List.not_mem_nil
      | some str => exact str.2.1
  · obtain ⟨⟨w, rest⟩, hword, heq⟩ := Option.map_eq_some_iff.mp hpiece
    obtain ⟨rfl, rfl⟩ := Prod.mk.inj heq
    have hlength : (if w.toUInt8 = 0 then [] else [w.toUInt8]).length ≤ 1 := by split_ifs <;> simp
    exact word_gives h hword (charArg_sat w.toUInt8) (by unfold tmpSize; omega)
  · obtain ⟨⟨w, rest⟩, hword, heq⟩ := Option.map_eq_some_iff.mp hpiece
    obtain ⟨rfl, rfl⟩ := Prod.mk.inj heq
    have hlength := length_hexadecimal_le w
    apply Gives.bind (vaWord_gives hword)
    rintro _ _ ⟨rfl, rfl⟩
    -- the first of the two appends
    have hprefix : (0 : UInt8) ∉ [ch '0', ch 'x'] := by decide
    apply Gives.bind (appendText_gives (h.with_args rest) hsize hprefix)
    rintro _ t ⟨hfilled, hargs⟩
    apply (viaTmp_gives hfilled (uinttohexstr_sat _ (by decide) _) (by unfold tmpSize; omega)).mono
    rintro append s' ⟨rfl, hne, hfilled', hargs'⟩
    exact ⟨hargs'.trans hargs, _, hfilled', rfl, hne⟩
  · obtain ⟨rfl, rfl⟩ := Prod.mk.inj (Option.some.inj hpiece)
    have hlength : [ch '%', conv].length < tmpSize := show 2 < tmpSize by decide
    apply (viaTmp_gives h (percent_sat hconv s.tmp) hlength).mono
    rintro append s' ⟨rfl, hne, hfilled, hargs⟩
    refine ⟨hargs, [], ?_, rfl, hne⟩
    rwa [List.append_nil]

/-- Nothing more fits. -/
theorem Filled.of_full (h : Filled size done s) (hfull : s.remaining = 0) (rest : List UInt8) :
    Filled size (done ++ rest) s := by
  have hremaining := h.remaining
  constructor
  · rw [List.take_append_of_le_length (by omega)]
    exact h.holds
  · rw [List.length_append]
    omega
  · exact h.inBuffer
  · exact h.inTmp

/-- The loop appends the whole expansion of what is left of the format, as far as it fits. -/
theorem vsnprintfLoop_gives (hsize : 1 ≤ size) (format : List UInt8) {rest done : List UInt8}
    {s : Printing} (hformat : 0 ∉ format) (h : Filled size done s)
    (hexpand : expand least format s.args = some rest) :
    Gives (vsnprintfLoop least size format) s fun _ s' => Filled size (done ++ rest) s' := by
  match format with
  | [] =>
    obtain rfl := Option.some.inj hexpand
    rw [List.append_nil]
    exact Gives.pure h
  | [c] =>
    obtain rfl := Option.some.inj hexpand
    have hc : c ≠ 0 := fun hzero => hformat (hzero ▸ .head _)
    apply Gives.get
    apply Gives.ite
    · intro hpos
      exact (literal_gives h hsize hpos hc).mono fun _ _ hfilled => hfilled.1
    · intro hfull
      exact Gives.pure (h.of_full (by omega) _)
  | c :: conv :: pfmt =>
    have hc : c ≠ 0 := fun hzero => hformat (hzero ▸ .head _)
    have hconv : conv ≠ 0 := fun hzero => hformat (hzero ▸ .tail _ (.head _))
    rw [expand] at hexpand
    rw [vsnprintfLoop]
    apply Gives.get
    apply Gives.ite
    · intro hpos
      split_ifs at hexpand ⊢ with hpercent
      · obtain ⟨⟨text, args⟩, hpiece, hrest⟩ := Option.bind_eq_some_iff.mp hexpand
        obtain ⟨after, hafter, rfl⟩ := Option.map_eq_some_iff.mp hrest
        apply Gives.bind (directive_gives h hsize hconv hpiece)
        rintro append t ⟨rfl, before, hfilled, rfl, hne⟩
        have hpfmt : 0 ∉ pfmt := fun hmem => hformat (.tail _ (.tail _ hmem))
        cases append with
        | none =>
          have hloop := vsnprintfLoop_gives hsize pfmt hpfmt hfilled hafter
          apply hloop.mono
          intro _ _ hdone
          simpa using hdone
        | some append =>
          apply Gives.bind (appendText_gives hfilled hsize hne)
          rintro _ t' ⟨hfilled', hargs⟩
          rw [← hargs] at hafter
          have hloop := vsnprintfLoop_gives hsize pfmt hpfmt hfilled' hafter
          apply hloop.mono
          intro _ _ hdone
          simpa using hdone
      · obtain ⟨after, hafter, rfl⟩ := Option.map_eq_some_iff.mp hexpand
        apply Gives.bind (literal_gives h hsize hpos hc)
        rintro _ t ⟨hfilled, hargs⟩
        rw [← hargs] at hafter
        have hloop := vsnprintfLoop_gives hsize (conv :: pfmt)
          (fun hmem => hformat (.tail _ hmem)) hfilled hafter
        apply hloop.mono
        intro _ _ hdone
        simpa using hdone
    · intro hfull
      exact Gives.pure (h.of_full (by omega) _)

/-- The loop starts with an empty string. -/
theorem filled_start (hsize : 1 ≤ size) (hlt : size < 2 ^ 32) (buffer tmp : Bytes)
    (args : List Arg) :
    Gives (onBuffer (write 0 0)) ⟨buffer, tmp, args, (size + (2 ^ 32 - 1)) % 2 ^ 32, [],
      []⟩ fun _ s =>
        Filled size [] s ∧ s.args = args := by
  have hwrite : Sat size (write 0 0) buffer fun _ mem' => Holds mem' ([] : List UInt8) :=
    write_nul_sat rfl List.not_mem_nil (by rw [List.length_nil]; omega)
  apply (onBuffer_gives hwrite (fun _ hmem => absurd hmem List.not_mem_nil)).mono
  rintro _ s ⟨hholds, hlog, hs⟩
  refine ⟨⟨?_, ?_, hlog, ?_⟩, ?_⟩
  · rwa [List.take_nil]
  · rw [hs, List.length_nil]
    dsimp only
    omega
  · rw [hs]
    exact fun _ hmem => absurd hmem List.not_mem_nil
  · rw [hs]

/-- What is stored of an expansion, and the number returned. -/
structure Stored (size : ℕ) (expansion : List UInt8) (value : ℤ) (s : Printing) : Prop where
  text : Holds s.buffer (expansion.take (size - 1))
  value : value = int32 (min (size - 1) expansion.length : ℕ)
  inBuffer : ∀ a ∈ s.bufferLog, a.off < size
  inTmp : ∀ a ∈ s.tmpLog, a.off < tmpSize

/-- For every buffer, format and matching arguments, whatever the least `int` is printed as. In a
buffer that is an object, of at most `2 ^ 31` bytes, the number returned is that of the characters
stored. -/
theorem vsnprintf_stored (least : LeastText) (hsize : 1 ≤ size) (hlt : size < 2 ^ 32)
    (buffer tmp : Bytes)
    {format : List UInt8} (hformat : 0 ∉ format) {args : List Arg} {expansion : List UInt8}
    (hexpand : expand least format args = some expansion) :
    ∃ value s, vsnprintf least buffer tmp size format args = some (value, s) ∧
      Stored size expansion value s ∧
      (size ≤ 2 ^ 31 → value = (expansion.take (size - 1)).length) := by
  have hrun : Gives (do
      onBuffer (write 0 0)
      vsnprintfLoop least size format) ⟨buffer, tmp, args, (size + (2 ^ 32 - 1)) % 2 ^ 32, [], []⟩
      fun _ s => Filled size ([] ++ expansion) s := by
    apply Gives.bind (filled_start hsize hlt buffer tmp args)
    rintro _ s ⟨hfilled, hargs⟩
    rw [← hargs] at hexpand
    exact vsnprintfLoop_gives hsize format hformat hfilled hexpand
  obtain ⟨_, s, hs, hfilled⟩ := hrun
  rw [List.nil_append] at hfilled
  have hremaining := hfilled.remaining
  have hvalue : (size : ℤ) - s.remaining - 1 = (min (size - 1) expansion.length : ℕ) := by omega
  refine ⟨int32 (size - s.remaining - 1), s, ?_,
    ⟨hfilled.holds, ?_, hfilled.inBuffer, hfilled.inTmp⟩, ?_⟩
  · unfold vsnprintf
    dsimp only
    rw [hs]
    rfl
  · rw [hvalue]
  · intro hle
    rw [hvalue, List.length_take, int32_of_bounds (by omega) (by omega)]

/-- The text that is right. -/
def leastNumeral : LeastText := ⟨intText Int32.minValue.toInt, by decide +kernel, by decide +kernel⟩

/-- A text that does not fit into six bytes. -/
theorem vsnprintf_stored_six : ∃ value s, vsnprintf leastNumeral (fun _ => 170) (fun _ => 0) 6
      [ch '%', ch 'i', ch '-', ch '%', ch 's']
      [.word 42, .str (some ⟨[ch 'a', ch 'b', ch 'c'], by decide⟩)] =
        some (value, s) ∧
    Stored 6 [ch '4', ch '2', ch '-', ch 'a', ch 'b', ch 'c'] value s ∧
    (6 ≤ 2 ^ 31 → value = ([ch '4', ch '2', ch '-', ch 'a', ch 'b', ch 'c'].take (6 - 1)).length) :=
  vsnprintf_stored leastNumeral (by decide) (by decide) _ _ (by decide) (by decide +kernel)

end X86Kernel.Strings
