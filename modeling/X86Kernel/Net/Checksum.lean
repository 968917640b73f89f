import X86Kernel.Lib.LittleEndian
import X86Kernel.Lib.Traced
import X86Kernel.Net.Wire

/-! The internet checksum of `ip.c`, and why a buffer with its checksum in it has checksum 0. -/
namespace X86Kernel.Net

open LittleEndian
open Traced (Bytes)

def read16 (off : ℕ) : Traced ℕ := do
  let low ← Traced.read off
  let high ← Traced.read (off + 1)
  return low.toNat + 2 ^ 8 * high.toNat

def read32 (off : ℕ) : Traced ℕ := do
  let low ← read16 off
  let high ← read16 (off + 2)
  return low + 2 ^ 16 * high

def write16 (off v : ℕ) : Traced Unit := do
  Traced.write off (.ofNat v)
  Traced.write (off + 1) (.ofNat (v / 2 ^ 8))

/-- The loop over the words, and the odd byte at the end. -/
def checksumLoop : ℕ → ℕ → ℕ → Traced ℕ
  | 0, _, sum => return sum
  | 1, off, sum => do
    let b ← Traced.read off
    return (sum + b.toNat) % 2 ^ 32
  | len + 2, off, sum => do
    let word ← read16 off
    checksumLoop len (off + 2) ((sum + word) % 2 ^ 32)

/-- The loop that folds the carries, for as many turns as are given; each makes `sum` smaller. -/
def foldCarries : ℕ → ℕ → ℕ
  | 0, sum => sum
  | turns + 1, sum =>
    if sum >>> 16 = 0 then sum else foldCarries turns ((sum &&& 0xFFFF) + sum >>> 16)

/-- `~sum` as a `uint16_t`. -/
def complement16 (sum : ℕ) : ℕ := 2 ^ 16 - 1 - sum % 2 ^ 16

def ipChecksum (off len : ℕ) : Traced ℕ := do
  let sum ← checksumLoop len off 0
  return complement16 (foldCarries sum sum)

/-! ### What it computes -/

/-- The words of a buffer and its odd byte, added up. -/
def wordSum (mem : Bytes) : ℕ → ℕ → ℕ
  | 0, _ => 0
  | 1, off => (mem off).toNat
  | len + 2, off => le16 mem off + wordSum mem len (off + 2)

def checksum (mem : Bytes) (off len : ℕ) : ℕ :=
  complement16 (foldCarries (wordSum mem len off) (wordSum mem len off))

@[simp] theorem run_read16 (off : ℕ) (mem : Bytes) :
    read16 off mem = ⟨le16 mem off, mem, [.read off, .read (off + 1)]⟩ := rfl

@[simp] theorem run_read32 (off : ℕ) (mem : Bytes) :
    read32 off mem =
    ⟨le32 mem off, mem, [.read off, .read (off + 1), .read (off + 2), .read (off + 3)]⟩ := rfl

@[simp] theorem run_write16 (off v : ℕ) (mem : Bytes) :
    write16 off v mem =
    ⟨(), Function.update (Function.update mem off (.ofNat v)) (off + 1) (.ofNat (v / 2 ^ 8)),
      [.write off, .write (off + 1)]⟩ := rfl

theorem wordSum_le (mem : Bytes) (len off : ℕ) : wordSum mem len off ≤ len * 2 ^ 15 := by
  induction len, off using wordSum.induct with
  | case1 off => simp [wordSum]
  | case2 off =>
    have hbyte := (mem off).toNat_lt
    rw [wordSum]
    omega
  | case3 len off ih =>
    have hword := le16_lt mem off
    rw [wordSum]
    omega

/-- Lengths are a `uint16_t`, so that the sum never wraps. -/
theorem run_checksumLoop (mem : Bytes) (len off sum : ℕ) (h : sum + wordSum mem len off < 2 ^ 32) :
    checksumLoop len off sum mem =
    ⟨sum + wordSum mem len off, mem, (List.range len).map fun k => .read (off + k)⟩ := by
  induction len, off using wordSum.induct generalizing sum with
  | case1 off => rfl
  | case2 off =>
    rw [wordSum] at h ⊢
    rw [checksumLoop, Traced.run_bind, Traced.run_read, Traced.run_pure, Nat.mod_eq_of_lt h]
    rfl
  | case3 len off ih =>
    rw [wordSum] at h ⊢
    rw [checksumLoop, Traced.run_bind, run_read16]
    dsimp only
    rw [Nat.mod_eq_of_lt (by omega), ih _ (by omega), Nat.add_assoc]
    simp [List.range_succ_eq_map, Function.comp_def, Nat.add_assoc, Nat.add_comm 2]

theorem run_ipChecksum (mem : Bytes) {len : ℕ} (hlen : len < 2 ^ 16) (off : ℕ) :
    ipChecksum off len mem =
    ⟨checksum mem off len, mem, (List.range len).map fun k => .read (off + k)⟩ := by
  have hle := wordSum_le mem len off
  rw [ipChecksum, Traced.run_bind, run_checksumLoop mem len off 0 (by omega)]
  simp [checksum]

/-! ### One's complement -/

theorem shiftRight_16 (sum : ℕ) : sum >>> 16 = sum / 2 ^ 16 := Nat.shiftRight_eq_div_pow sum 16

theorem and_FFFF (sum : ℕ) : sum &&& 0xFFFF = sum % 2 ^ 16 := Nat.and_two_pow_sub_one_eq_mod sum 16

/-- Folding keeps the remainder modulo 2^16 - 1 and makes no zero. -/
theorem foldCarries_spec (turns sum : ℕ) (h : sum ≤ turns) :
    foldCarries turns sum < 2 ^ 16 ∧ foldCarries turns sum % (2 ^ 16 - 1) = sum % (2 ^ 16 - 1) ∧
      (foldCarries turns sum = 0 ↔ sum = 0) := by
  induction turns generalizing sum with
  | zero =>
    obtain rfl := Nat.le_zero.mp h
    simp [foldCarries]
  | succ turns ih =>
    rw [foldCarries, shiftRight_16, and_FFFF]
    split_ifs with hdone
    · exact ⟨by omega, rfl, Iff.rfl⟩
    · obtain ⟨hlt, hmod, hzero⟩ := ih (sum % 2 ^ 16 + sum / 2 ^ 16) (by omega)
      refine ⟨hlt, ?_, ?_⟩
      · rw [hmod]
        omega
      · rw [hzero]
        omega

/-- A buffer passes the test when its words add up to a multiple of 2^16 - 1, but not to 0. -/
theorem checksum_eq_zero_iff (mem : Bytes) (off len : ℕ) :
    checksum mem off len = 0 ↔
    wordSum mem len off % (2 ^ 16 - 1) = 0 ∧ wordSum mem len off ≠ 0 := by
  obtain ⟨hlt, hmod, hzero⟩ := foldCarries_spec _ (wordSum mem len off) le_rfl
  unfold checksum complement16
  omega

theorem checksum_lt (mem : Bytes) (off len : ℕ) : checksum mem off len < 2 ^ 16 := by
  unfold checksum complement16
  omega

/-- The field that the checksum is stored to. -/
def setField (mem : Bytes) (off v : ℕ) : Bytes :=
  Function.update (Function.update mem off (.ofNat v)) (off + 1) (.ofNat (v / 2 ^ 8))

theorem setField_of_ne (mem : Bytes) {off v k : ℕ} (h : k ≠ off) (h' : k ≠ off + 1) :
    setField mem off v k = mem k := by
  unfold setField
  rw [Function.update_of_ne h', Function.update_of_ne h]

theorem le16_setField (mem : Bytes) (off : ℕ) {v : ℕ} (hv : v < 2 ^ 16) :
    le16 (setField mem off v) off = v := by
  simp only [le16, setField, Function.update_self, Function.update_of_ne (Nat.lt_succ_self off).ne,
    UInt8.toNat_ofNat']
  omega

theorem setField_setField (mem : Bytes) (off v w : ℕ) :
    setField (setField mem off v) off w = setField mem off w := by
  funext k
  by_cases h : k = off
  · subst h
    simp [setField]
  · by_cases h' : k = off + 1
    · subst h'
      simp [setField]
    · rw [setField_of_ne _ h h', setField_of_ne _ h h', setField_of_ne _ h h']

/-- The sum depends on the bytes of the buffer only, and not on where it lies. -/
theorem wordSum_congr {mem mem' : Bytes} {len off off' : ℕ}
    (h : ∀ k < len, mem (off + k) = mem' (off' + k)) :
    wordSum mem len off = wordSum mem' len off' := by
  induction len, off using wordSum.induct generalizing off' with
  | case1 off => rfl
  | case2 off => rw [wordSum, wordSum, show mem off = mem' off' from h 0 (by norm_num)]
  | case3 len off ih =>
    have hlow : mem off = mem' off' := h 0 (by omega)
    have hhigh : mem (off + 1) = mem' (off' + 1) := h 1 (by omega)
    have hrest : wordSum mem len (off + 2) = wordSum mem' len (off' + 2) := ih fun k hk => by
      have hbyte := h (k + 2) (by omega)
      rwa [show off + (k + 2) = off + 2 + k by ring, show off' + (k + 2) = off' + 2 + k by ring]
        at hbyte
    rw [wordSum, wordSum, hrest, le16, le16, hlow, hhigh]

/-- One word of the buffer is replaced. -/
theorem wordSum_setField (mem : Bytes) (v len off k : ℕ) (hk : 2 * k + 2 ≤ len) (hv : v < 2 ^ 16) :
    wordSum (setField mem (off + 2 * k) v) len off + le16 mem (off + 2 * k) =
    wordSum mem len off + v := by
  induction k generalizing len off with
  | zero =>
    obtain ⟨len, rfl⟩ : ∃ m, len = m + 2 := ⟨len - 2, by omega⟩
    have hrest : wordSum (setField mem off v) len (off + 2) = wordSum mem len (off + 2) :=
      wordSum_congr fun j _ => setField_of_ne mem (by omega) (by omega)
    rw [Nat.mul_zero, Nat.add_zero, wordSum, wordSum, le16_setField mem off hv, hrest]
    ring
  | succ k ih =>
    obtain ⟨len, rfl⟩ : ∃ m, len = m + 2 := ⟨len - 2, by omega⟩
    have hrest := ih len (off + 2) (by omega)
    rw [show off + 2 + 2 * k = off + 2 * (k + 1) by ring] at hrest
    have hhead : le16 (setField mem (off + 2 * (k + 1)) v) off = le16 mem off := by
      rw [le16, le16, setField_of_ne mem (by omega) (by omega),
        setField_of_ne mem (by omega) (by omega)]
    rw [wordSum, wordSum, hhead]
    omega

/-- A buffer in which the checksum is stored at an even offset, computed with 0 there, has checksum
0. -/
theorem checksum_stored (mem : Bytes) (off k : ℕ) {len : ℕ} (hk : 2 * k + 2 ≤ len) :
    checksum (setField mem (off + 2 * k) (checksum (setField mem (off + 2 * k) 0) off len)) off
      len = 0 := by
  obtain ⟨hlt, hmod, hzero⟩ :=
    foldCarries_spec _ (wordSum (setField mem (off + 2 * k) 0) len off) le_rfl
  have hcheck := checksum_lt (setField mem (off + 2 * k) 0) off len
  have hsum := wordSum_setField (setField mem (off + 2 * k) 0) _ len off k hk hcheck
  rw [setField_setField, le16_setField mem (off + 2 * k) (by norm_num), Nat.add_zero] at hsum
  rw [checksum_eq_zero_iff, hsum]
  unfold checksum complement16
  -- the two encodings of 0: the complement of the folded sum is never the one that leaves 0
  omega

theorem checksum_congr {mem mem' : Bytes} {off off' len : ℕ}
    (h : ∀ k < len, mem (off + k) = mem' (off' + k)) :
    checksum mem off len = checksum mem' off' len := by
  unfold checksum
  rw [wordSum_congr h]

end X86Kernel.Net
