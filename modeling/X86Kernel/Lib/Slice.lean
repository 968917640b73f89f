import Mathlib.Data.List.Range
import Mathlib.Tactic

/-! Consecutive cells of a memory, read as a list, and copied from one memory to another. -/
namespace Slice

variable {α : Type*} {mem src : ℕ → α} {off start m n k : ℕ}

/-- The `n` cells from `off` on. -/
def slice (mem : ℕ → α) (off n : ℕ) : List α := (List.range n).map fun k => mem (off + k)

/-- `mem` after the `n` cells of `src` from `start` on are copied to `off`. -/
def copy (mem : ℕ → α) (off : ℕ) (src : ℕ → α) (start n : ℕ) : ℕ → α := fun k =>
  if off ≤ k ∧ k < off + n then src (start + (k - off)) else mem k

@[simp] theorem length_slice : (slice mem off n).length = n := by simp [slice]

@[simp] theorem slice_zero : slice mem off 0 = [] := rfl

theorem slice_add : slice mem off (m + n) = slice mem off m ++ slice mem (off + m) n := by
  simp [slice, List.range_add, Nat.add_assoc]

theorem drop_slice (h : k ≤ n) : (slice mem off n).drop k = slice mem (off + k) (n - k) := by
  obtain ⟨r, rfl⟩ := Nat.exists_eq_add_of_le h
  rw [slice_add, List.drop_left' length_slice, Nat.add_sub_cancel_left]

theorem slice_congr {mem' : ℕ → α} {off' : ℕ} (h : ∀ k < n, mem (off + k) = mem' (off' + k)) :
    slice mem off n = slice mem' off' n := by
  apply List.map_congr_left
  intro k hk
  exact h k (List.mem_range.mp hk)

/-- What is copied behind a slice is appended to it. -/
theorem slice_copy :
    slice (copy mem n src start m) 0 (n + m) = slice mem 0 n ++ slice src start m := by
  rw [slice_add]
  congr 1
  · apply slice_congr
    intro k hk
    unfold copy
    rw [if_neg (by omega)]
  · apply slice_congr
    intro k hk
    unfold copy
    rw [if_pos (by omega)]
    congr 1
    omega

/-- A slice moved to the start of its own memory. -/
theorem slice_move : slice (copy mem 0 mem start n) 0 n = slice mem start n := by
  have hcopy : slice (copy mem 0 mem start n) 0 (0 + n) = slice mem 0 0 ++ slice mem start n :=
    slice_copy
  rwa [Nat.zero_add, slice_zero, List.nil_append] at hcopy

end Slice
