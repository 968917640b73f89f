import Mathlib.Data.List.GetD
import Mathlib.Data.UInt
import Mathlib.Tactic

/-! Numbers of 16 and 32 bits as they lie in a memory of bytes, the lowest byte first. -/
namespace LittleEndian

def le16 (mem : ℕ → UInt8) (off : ℕ) : ℕ := (mem off).toNat + 2 ^ 8 * (mem (off + 1)).toNat

def le32 (mem : ℕ → UInt8) (off : ℕ) : ℕ := le16 mem off + 2 ^ 16 * le16 mem (off + 2)

def le16Bytes (v : ℕ) : List UInt8 := [.ofNat v, .ofNat (v / 2 ^ 8)]

def le32Bytes (v : ℕ) : List UInt8 := le16Bytes (v % 2 ^ 16) ++ le16Bytes (v / 2 ^ 16)

/-- The memory that a list of bytes lies at the start of. -/
def bytesOf (l : List UInt8) : ℕ → UInt8 := fun k => l.getD k 0

theorem le16_lt (mem : ℕ → UInt8) (off : ℕ) : le16 mem off < 2 ^ 16 := by
  have hlow := (mem off).toNat_lt
  have hhigh := (mem (off + 1)).toNat_lt
  unfold le16
  omega

theorem le32_lt (mem : ℕ → UInt8) (off : ℕ) : le32 mem off < 2 ^ 32 := by
  have hlow := le16_lt mem off
  have hhigh := le16_lt mem (off + 2)
  unfold le32
  omega

theorem le16_bytes {v : ℕ} (hv : v < 2 ^ 16) :
    (UInt8.ofNat v).toNat + 2 ^ 8 * (UInt8.ofNat (v / 2 ^ 8)).toNat = v := by
  simp only [UInt8.toNat_ofNat']
  omega

theorem le32_bytes {v : ℕ} (hv : v < 2 ^ 32) :
    (UInt8.ofNat (v % 2 ^ 16)).toNat + 2 ^ 8 * (UInt8.ofNat (v % 2 ^ 16 / 2 ^ 8)).toNat +
      2 ^ 16 * ((UInt8.ofNat (v / 2 ^ 16)).toNat +
        2 ^ 8 * (UInt8.ofNat (v / 2 ^ 16 / 2 ^ 8)).toNat) = v := by
  rw [le16_bytes (by omega), le16_bytes (by omega)]
  omega

theorem bytesOf_append_right (a b : List UInt8) (k : ℕ) :
    bytesOf (a ++ b) (a.length + k) = bytesOf b k := by
  unfold bytesOf
  rw [List.getD_append_right _ _ _ _ (Nat.le_add_right _ _), Nat.add_sub_cancel_left]

theorem bytesOf_append_left {a : List UInt8} (b : List UInt8) {k : ℕ} (h : k < a.length) :
    bytesOf (a ++ b) k = bytesOf a k := List.getD_append _ _ _ _ h

end LittleEndian
