import Mathlib.Algebra.BigOperators.Group.Finset.Piecewise
import Mathlib.Algebra.Order.BigOperators.Group.Finset
import Mathlib.Data.Fintype.BigOperators

/-! Sums over a finite index type under a change of one index, and counts in lists without
repetition: the bookkeeping behind reference counts. -/
namespace Counting

variable {ι β : Type*} [Fintype ι] [DecidableEq ι]

theorem sum_update (f : β → ℕ) (g : ι → β) (a : ι) (x : β) :
    (∑ i, f (Function.update g a x i)) + f (g a) = (∑ i, f (g i)) + f x := by
  have hrest : ∑ i ∈ Finset.univ.erase a, f (Function.update g a x i) =
      ∑ i ∈ Finset.univ.erase a, f (g i) := by
    apply Finset.sum_congr rfl
    intro i hi
    rw [Function.update_of_ne (Finset.ne_of_mem_erase hi)]
  have hnew := Finset.add_sum_erase Finset.univ (fun i => f (Function.update g a x i))
    (Finset.mem_univ a)
  have hold := Finset.add_sum_erase Finset.univ (fun i => f (g i)) (Finset.mem_univ a)
  simp only [Function.update_self] at hnew
  omega

theorem count_eq_ite {α : Type*} [DecidableEq α] {l : List α} (hl : l.Nodup) {a : α} {p : Prop}
    [Decidable p] (h : a ∈ l ↔ p) : l.count a = if p then 1 else 0 := by
  split_ifs with hp
  · exact List.count_eq_one_of_mem hl (h.mpr hp)
  · exact List.count_eq_zero_of_not_mem fun hm => hp (h.mp hm)

end Counting
