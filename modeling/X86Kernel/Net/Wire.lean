import Mathlib.Data.Nat.Bitwise
import Mathlib.Data.UInt
import Mathlib.Tactic

/-! Addresses and the byte order of the wire, from `ethernet.h`. -/
namespace X86Kernel.Net

abbrev Mac := Vector UInt8 6

/-- An address as a `uint32_t`, the first octet in its lowest byte. -/
def packIp (a b c d : UInt8) : ℕ := a.toNat ||| b.toNat <<< 8 ||| c.toNat <<< 16 ||| d.toNat <<< 24

def unpackIp (ip : ℕ) : UInt8 × UInt8 × UInt8 × UInt8 :=
  (.ofNat (ip &&& 0xFF), .ofNat (ip >>> 8 &&& 0xFF), .ofNat (ip >>> 16 &&& 0xFF),
    .ofNat (ip >>> 24 &&& 0xFF))

/-- The two bytes of a `uint16_t` exchanged. -/
def htons (x : ℕ) : ℕ := (x >>> 8 ||| x <<< 8) % 2 ^ 16

def localIp : ℕ := packIp 10 5 0 4
def gatewayIp : ℕ := packIp 10 5 0 1

theorem packIp_eq (a b c d : UInt8) :
    packIp a b c d = a.toNat + 2 ^ 8 * b.toNat + 2 ^ 16 * c.toNat + 2 ^ 24 * d.toNat := by
  have ha := a.toNat_lt
  have hb := b.toNat_lt
  have hc := c.toNat_lt
  unfold packIp
  rw [Nat.or_comm a.toNat, ← Nat.shiftLeft_add_eq_or_of_lt (by omega),
    Nat.or_comm _ (c.toNat <<< 16),
    ← Nat.shiftLeft_add_eq_or_of_lt (by rw [Nat.shiftLeft_eq]; omega),
    Nat.or_comm _ (d.toNat <<< 24),
    ← Nat.shiftLeft_add_eq_or_of_lt (by simp only [Nat.shiftLeft_eq]; omega)]
  simp only [Nat.shiftLeft_eq]
  ring

theorem unpackIp_eq (ip : ℕ) :
    unpackIp ip = (.ofNat (ip % 2 ^ 8), .ofNat (ip / 2 ^ 8 % 2 ^ 8), .ofNat (ip / 2 ^ 16 % 2 ^ 8),
      .ofNat (ip / 2 ^ 24 % 2 ^ 8)) := by
  have hmask : ∀ x : ℕ, x &&& 0xFF = x % 2 ^ 8 := fun x => Nat.and_two_pow_sub_one_eq_mod x 8
  unfold unpackIp
  simp only [hmask, Nat.shiftRight_eq_div_pow]

theorem packIp_unpackIp {ip : ℕ} (h : ip < 2 ^ 32) :
    packIp (unpackIp ip).1 (unpackIp ip).2.1 (unpackIp ip).2.2.1 (unpackIp ip).2.2.2 = ip := by
  rw [packIp_eq, unpackIp_eq]
  simp only [UInt8.toNat_ofNat']
  omega

theorem htons_eq {x : ℕ} (h : x < 2 ^ 16) : htons x = x / 2 ^ 8 + 2 ^ 8 * (x % 2 ^ 8) := by
  unfold htons
  rw [Nat.or_comm, Nat.shiftRight_eq_div_pow, ← Nat.shiftLeft_add_eq_or_of_lt (by omega),
    Nat.shiftLeft_eq]
  omega

theorem htons_lt (x : ℕ) : htons x < 2 ^ 16 := Nat.mod_lt _ (by norm_num)

theorem htons_htons {x : ℕ} (h : x < 2 ^ 16) : htons (htons x) = x := by
  rw [htons_eq (htons_lt x), htons_eq h]
  omega

end X86Kernel.Net
