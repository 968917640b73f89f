import X86Kernel.Fat.Contents
import X86Kernel.Fat.Loops

/-! Reading: both readers give the bytes that the clusters of a file hold. -/
namespace X86Kernel.Fat

open Vol

variable {g : Geom} {v v' w : Vol} {e : Env} {chain l : List ℕ} {c cur start : ℕ}

/-- A buffer that takes everything. -/
def copiedAll : ℕ → ℕ → Option ℕ := fun _ k => some k

/-- `n` bytes from `offset` on. -/
def slice (bytes : ℕ → UInt8) (offset n : ℕ) : List UInt8 :=
  (List.range n).map fun k => bytes (offset + k)

@[simp] theorem length_slice (bytes : ℕ → UInt8) (offset n : ℕ) :
    (slice bytes offset n).length = n := by simp [slice]

theorem slice_congr {bytes bytes' : ℕ → UInt8} {offset offset' n : ℕ}
    (h : ∀ k < n, bytes (offset + k) = bytes' (offset' + k)) :
      slice bytes offset n = slice bytes' offset' n :=
  List.map_congr_left fun k hk => h k (List.mem_range.mp hk)

theorem byteOf_congr {u : Vol} (hdisk : u.disk = v.disk) (l : List ℕ) :
    byteOf g u l = byteOf g v l := by
  funext p
  unfold byteOf
  rw [hdisk]

end X86Kernel.Fat
