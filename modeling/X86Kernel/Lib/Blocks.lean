import Mathlib.Tactic
import Mathlib.Data.List.GetD

/-! Sequences stored in blocks: what the blocks of a list hold, read as one sequence. -/
namespace Blocks

variable {α : Type*} (addr : ℕ → ℕ) (size : ℕ)

/-- Item `p` of what the blocks of `l` hold. -/
def itemAt (mem : ℕ → α) (l : List ℕ) (p : ℕ) : α := mem (addr (l.getD (p / size) 0) + p % size)

variable {addr size} {mem mem' : ℕ → α} {l m : List ℕ} {b p : ℕ}

theorem index_lt (h : p < l.length * size) : p / size < l.length :=
  Nat.div_lt_of_lt_mul (by rwa [Nat.mul_comm])

theorem itemAt_head (h : p < size) : itemAt addr size mem (b :: l) p = mem (addr b + p) := by
  unfold itemAt
  rw [Nat.div_eq_of_lt h, Nat.mod_eq_of_lt h, List.getD_cons_zero]

theorem itemAt_tail (hpos : 0 < size) (h : size ≤ p) :
    itemAt addr size mem (b :: l) p = itemAt addr size mem l (p - size) := by
  unfold itemAt
  rw [Nat.div_eq_sub_div hpos h, List.getD_cons_succ, Nat.mod_eq_sub_mod h]

theorem itemAt_left (h : p < l.length * size) :
    itemAt addr size mem (l ++ m) p = itemAt addr size mem l p := by
  unfold itemAt
  rw [List.getD_append _ _ _ _ (index_lt h)]

theorem itemAt_right (hpos : 0 < size) (h : l.length * size ≤ p) :
    itemAt addr size mem (l ++ m) p = itemAt addr size mem m (p - l.length * size) := by
  induction l generalizing p with
  | nil => simp
  | cons b l ih =>
    have hlen : (b :: l).length * size = l.length * size + size := by
      rw [List.length_cons, Nat.succ_mul]
    rw [hlen] at h
    rw [List.cons_append, itemAt_tail hpos (by omega), ih (by omega), hlen]
    congr 1
    omega

/-- Every item is in one of the blocks. -/
theorem exists_block (addr : ℕ → ℕ) (mem : ℕ → α) (h : p < l.length * size) :
    ∃ c ∈ l, itemAt addr size mem l p = mem (addr c + p % size) := by
  refine ⟨l.getD (p / size) 0, ?_, rfl⟩
  rw [List.getD_eq_getElem _ _ (index_lt h)]
  exact List.getElem_mem _

theorem itemAt_congr (hpos : 0 < size)
    (h : ∀ c ∈ l, ∀ k < size, mem' (addr c + k) = mem (addr c + k)) (hp : p < l.length * size) :
    itemAt addr size mem' l p = itemAt addr size mem l p := by
  refine h _ ?_ _ (Nat.mod_lt _ hpos)
  rw [List.getD_eq_getElem _ _ (index_lt hp)]
  exact List.getElem_mem _

end Blocks
