import Mathlib.Data.List.Perm.Basic
import Mathlib.Tactic

/-! Removal from an unordered array: the element found is overwritten by the last one and the
array shortened. As a multiset this is plain removal. -/
namespace SwapRemove

variable {α : Type*} [DecidableEq α]

/-- The first occurrence of `a` is replaced by the last element, which is then dropped. -/
def remove : List α → α → List α
  | [], _ => []
  | b :: l, a =>
    if b = a then
      match l.getLast? with
      | none => []
      | some z => z :: l.dropLast
    else b :: remove l a

theorem remove_perm (l : List α) (a : α) : (remove l a).Perm (l.erase a) := by
  induction l with
  | nil => exact List.Perm.refl _
  | cons b l ih =>
    unfold remove
    by_cases hb : b = a
    · subst hb
      rw [if_pos rfl, List.erase_cons_head]
      cases hl : l.getLast? with
      | none =>
        rw [List.getLast?_eq_none_iff.mp hl]
      | some z =>
        obtain ⟨ys, rfl⟩ := List.getLast?_eq_some_iff.mp hl
        rw [List.dropLast_concat]
        exact (List.perm_append_singleton z ys).symm
    · rw [if_neg hb, List.erase_cons_tail (by simpa using hb)]
      exact ih.cons b

theorem nodup_remove {l : List α} (h : l.Nodup) (a : α) : (remove l a).Nodup :=
  (remove_perm l a).nodup_iff.mpr (h.erase a)

theorem mem_remove {l : List α} (h : l.Nodup) {a b : α} : b ∈ remove l a ↔ b ≠ a ∧ b ∈ l := by
  rw [(remove_perm l a).mem_iff, h.mem_erase_iff]

theorem mem_of_mem_remove {l : List α} {a b : α} (h : b ∈ remove l a) : b ∈ l :=
  List.mem_of_mem_erase ((remove_perm l a).mem_iff.mp h)

theorem length_remove {l : List α} {a : α} (h : a ∈ l) : (remove l a).length = l.length - 1 := by
  rw [(remove_perm l a).length_eq, List.length_erase_of_mem h]

theorem remove_of_not_mem {l : List α} {a : α} (h : a ∉ l) : remove l a = l := by
  induction l with
  | nil => rfl
  | cons b l ih =>
    rw [List.mem_cons, not_or] at h
    rw [remove, if_neg (Ne.symm h.1), ih h.2]

/-- Removal from an array that is scanned from its end: what moves into the gap was looked at
before. -/
theorem getElem?_remove_of_ge {P : α → Prop} {l : List α} (hl : l.Nodup) {a : α} :
    ∀ {i : ℕ}, l[i]? = some a → (∀ j b, i < j → l[j]? = some b → P b) →
      ∀ j b, i ≤ j → (remove l a)[j]? = some b → P b := by
  induction l with
  | nil =>
    intro i ha
    simp at ha
  | cons c l ih =>
    intro i ha hP j b hij hb
    obtain ⟨hc, hl⟩ := List.nodup_cons.mp hl
    unfold remove at hb
    cases i with
    | zero =>
      obtain rfl : c = a := by simpa using ha
      rw [if_pos rfl] at hb
      cases hz : l.getLast? with
      | none =>
        rw [hz] at hb
        simp at hb
      | some z =>
        rw [hz] at hb
        obtain ⟨m, rfl⟩ := List.getLast?_eq_some_iff.mp hz
        dsimp only at hb
        rw [List.dropLast_concat] at hb
        cases j with
        | zero =>
          obtain rfl : z = b := by simpa using hb
          exact hP (m.length + 1) z (Nat.succ_pos _) (by simp)
        | succ j =>
          rw [List.getElem?_cons_succ] at hb
          refine hP (j + 1) b (Nat.succ_pos _) ?_
          rw [List.getElem?_cons_succ,
            List.getElem?_append_left (List.getElem?_eq_some_iff.mp hb).1]
          exact hb
    | succ i =>
      rw [List.getElem?_cons_succ] at ha
      have hne : c ≠ a := fun e => hc (e ▸ List.mem_of_getElem? ha)
      rw [if_neg hne] at hb
      obtain ⟨j, rfl⟩ : ∃ k, j = k + 1 := ⟨j - 1, by omega⟩
      rw [List.getElem?_cons_succ] at hb
      refine ih hl ha (fun j' b' hj' hb' => ?_) j b (by omega) hb
      exact hP (j' + 1) b' (by omega) (by rwa [List.getElem?_cons_succ])

end SwapRemove
