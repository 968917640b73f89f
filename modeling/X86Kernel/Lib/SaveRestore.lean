import Mathlib.Data.List.Nodup
import Mathlib.Logic.Function.Basic
import Mathlib.Tactic

/-! Cells that are overwritten one by one, the old values kept in a buffer, and written back in the
same order. -/
namespace SaveRestore

variable {ι α β : Type*} [DecidableEq ι]

structure State (ι α β : Type*) where
  cells : ι → α
  buffer : ℕ → β
  count : ℕ

/-- The old value goes to the buffer. -/
def save (enc : α → β) (new : α) (s : State ι α β) (i : ι) : State ι α β :=
  ⟨Function.update s.cells i new, Function.update s.buffer s.count (enc (s.cells i)), s.count + 1⟩

def restore (dec : β → α) (s : State ι α β) (i : ι) : State ι α β :=
  ⟨Function.update s.cells i (dec (s.buffer s.count)), s.buffer, s.count + 1⟩

variable {enc : α → β} {dec : β → α} {new : α}

theorem save_cells_of_not_mem {l : List ι} {j : ι} (hj : j ∉ l) (s : State ι α β) :
    (l.foldl (save enc new) s).cells j = s.cells j := by
  induction l generalizing s with
  | nil => rfl
  | cons i l ih =>
    rw [List.foldl_cons, ih (fun h => hj (.tail _ h))]
    apply Function.update_of_ne
    rintro rfl
    exact hj (.head _)

/-- Nothing before the start is saved over. -/
theorem save_buffer_of_lt (l : List ι) (s : State ι α β) {k : ℕ} (hk : k < s.count) :
    (l.foldl (save enc new) s).buffer k = s.buffer k := by
  induction l generalizing s with
  | nil => rfl
  | cons i l ih =>
    rw [List.foldl_cons, ih _ (Nat.lt_succ_of_lt hk)]
    exact Function.update_of_ne (by omega) _ _

/-- When no cell is visited twice, the buffer holds what all cells were. -/
theorem save_buffer {l : List ι} (hl : l.Nodup) (s : State ι α β) (k : ℕ) (hk : k < l.length) :
    (l.foldl (save enc new) s).buffer (s.count + k) = enc (s.cells l[k]) := by
  induction l generalizing s k with
  | nil => cases hk
  | cons i l ih =>
    obtain ⟨hi, hl⟩ := List.nodup_cons.mp hl
    rw [List.foldl_cons]
    cases k with
    | zero =>
      rw [save_buffer_of_lt l _ (Nat.lt_succ_self _)]
      exact Function.update_self ..
    | succ k =>
      rw [List.length_cons] at hk
      have hrest := ih hl (save enc new s i) k (by omega)
      have hcells : (save enc new s i).cells l[k] = s.cells l[k] := by
        apply Function.update_of_ne
        intro heq
        exact hi (heq ▸ List.getElem_mem _)
      rw [hcells] at hrest
      rw [List.getElem_cons_succ, ← hrest]
      congr 1
      change s.count + (k + 1) = s.count + 1 + k
      omega

/-- From a buffer of old values every cell visited gets its own. -/
theorem restore_cells (hdec : ∀ a, dec (enc a) = a) {old : ι → α} (l : List ι) (s : State ι α β)
    (hbuffer : ∀ k (hk : k < l.length), s.buffer (s.count + k) = enc (old l[k])) (j : ι) :
    (l.foldl (restore dec) s).cells j = if j ∈ l then old j else s.cells j := by
  induction l generalizing s with
  | nil => rfl
  | cons i l ih =>
    have hfirst := hbuffer 0 (Nat.succ_pos _)
    have hrest : ∀ k (hk : k < l.length),
        (restore dec s i).buffer ((restore dec s i).count + k) = enc (old l[k]) := by
      intro k hk
      have hnext := hbuffer (k + 1) (Nat.succ_lt_succ hk)
      rw [List.getElem_cons_succ] at hnext
      rw [← hnext]
      change s.buffer (s.count + 1 + k) = _
      congr 1
      omega
    rw [List.foldl_cons, ih _ hrest]
    by_cases hj : j ∈ l
    · rw [if_pos hj, if_pos (.tail _ hj)]
    · rw [if_neg hj]
      change Function.update s.cells i (dec (s.buffer (s.count + 0))) j = _
      rw [hfirst, hdec, List.getElem_cons_zero, Function.update_apply]
      by_cases hij : j = i
      · rw [if_pos hij, if_pos (hij ▸ .head _), hij]
      · rw [if_neg hij, if_neg]
        exact fun hmem => (List.mem_cons.mp hmem).elim hij hj

/-- Saving and restoring the same cells cancel, unless a cell is visited twice. -/
theorem restore_save (hdec : ∀ a, dec (enc a) = a) {l : List ι} (hl : l.Nodup) (s : State ι α β) :
    (l.foldl (restore dec) { l.foldl (save enc new) s with count := s.count }).cells = s.cells := by
  funext j
  rw [restore_cells hdec l _ (save_buffer hl s)]
  by_cases hj : j ∈ l
  · exact if_pos hj
  · rw [if_neg hj]
    exact save_cells_of_not_mem hj s

end SaveRestore
