import Mathlib.Data.List.Range
import Mathlib.Logic.Function.Basic
import Mathlib.Tactic

/-! Ring buffers: the window of `count` slots that starts at `head` and wraps after `n`. -/
namespace Ring

variable {α : Type*}

/-- The contents of the ring, oldest first. -/
def window (n : ℕ) (slots : ℕ → α) (head count : ℕ) : List α :=
  (List.range count).map fun i => slots ((head + i) % n)

@[simp] theorem window_zero (n : ℕ) (slots : ℕ → α) (head : ℕ) : window n slots head 0 = [] := rfl

@[simp] theorem length_window (n : ℕ) (slots : ℕ → α) (head count : ℕ) :
    (window n slots head count).length = count := by simp [window]

theorem window_succ (n : ℕ) (slots : ℕ → α) (head count : ℕ) :
    window n slots head (count + 1) =
      slots (head % n) :: window n slots ((head + 1) % n) count := by
  rw [window, List.range_succ_eq_map]
  simp only [List.map_cons, List.map_map, Nat.add_zero, window]
  congr 1
  apply List.map_congr_left
  intro i _
  simp only [Function.comp_apply, Nat.mod_add_mod]
  congr 2
  omega

theorem window_snoc (n : ℕ) (slots : ℕ → α) (head count : ℕ) :
    window n slots head (count + 1) =
      window n slots head count ++ [slots ((head + count) % n)] := by
  simp [window, List.range_succ]

theorem window_congr {n : ℕ} {slots slots' : ℕ → α} {head count : ℕ}
    (h : ∀ i < count, slots' ((head + i) % n) = slots ((head + i) % n)) :
    window n slots' head count = window n slots head count :=
  List.map_congr_left fun i hi => h i (List.mem_range.mp hi)

theorem add_mod_ne {n head i j : ℕ} (hij : i < j) (hj : j < n) :
    (head + i) % n ≠ (head + j) % n := by
  intro h
  have : head + i ≡ head + j [MOD n] := h
  have := Nat.ModEq.add_left_cancel' head this
  unfold Nat.ModEq at this
  rw [Nat.mod_eq_of_lt (by omega), Nat.mod_eq_of_lt hj] at this
  omega

/-- Writing behind the last element of a ring that is not full appends to its contents. -/
theorem window_push {n : ℕ} (slots : ℕ → α) (head : ℕ) {count : ℕ} (hc : count < n) (a : α) :
    window n (Function.update slots ((head + count) % n) a) head (count + 1) =
      window n slots head count ++ [a] := by
  rw [window_snoc, Function.update_self]
  congr 1
  refine window_congr fun i hi => Function.update_of_ne ?_ _ _
  exact add_mod_ne hi hc

/-- Writing an element of the ring over sets it in the contents. -/
theorem window_set {n : ℕ} (slots : ℕ → α) (head : ℕ) {count i : ℕ} (hi : i < count)
    (hc : count ≤ n) (a : α) :
    window n (Function.update slots ((head + i) % n) a) head count =
    (window n slots head count).set i a := by
  refine List.ext_getElem (by simp) fun j h1 h2 => ?_
  rw [length_window] at h1
  simp only [window, List.getElem_map, List.getElem_range, List.getElem_set]
  split_ifs with hij
  · rw [hij, Function.update_self]
  · refine Function.update_of_ne ?_ _ _
    rcases Nat.lt_or_gt_of_ne hij with h | h
    · exact (add_mod_ne h (by omega)).symm
    · exact add_mod_ne h (by omega)

theorem window_add (n : ℕ) (slots : ℕ → α) (head a b : ℕ) :
    window n slots head (a + b) = window n slots head a ++ window n slots ((head + a) % n) b := by
  simp only [window, List.range_add, List.map_append, List.map_map]
  congr 1
  apply List.map_congr_left
  intro i _
  simp only [Function.comp_apply, Nat.mod_add_mod]
  congr 2
  omega

/-- A run that does not wrap. -/
theorem window_run {n : ℕ} (slots : ℕ → α) {head a : ℕ} (h : head + a ≤ n) :
    window n slots head a = (List.range a).map fun i => slots (head + i) := by
  apply List.map_congr_left
  intro i hi
  rw [Nat.mod_eq_of_lt]
  have := List.mem_range.mp hi
  omega

/-- The slots after a run of elements is copied to `pos`. -/
def writeRun (slots : ℕ → α) (pos : ℕ) (l : List α) : ℕ → α := fun i =>
  if pos ≤ i then (l[i - pos]?).getD (slots i) else slots i

theorem writeRun_add (slots : ℕ → α) (pos : ℕ) {l : List α} {i : ℕ} (h : i < l.length) :
    writeRun slots pos l (pos + i) = l[i] := by simp [writeRun, h]

theorem writeRun_of_not_mem (slots : ℕ → α) {pos : ℕ} {l : List α} {i : ℕ}
    (h : i < pos ∨ pos + l.length ≤ i) :
    writeRun slots pos l i = slots i := by
  unfold writeRun
  split_ifs with hp
  · rw [List.getElem?_eq_none (by omega)]
    rfl
  · rfl

/-- Copying a run that does not wrap behind the last element appends it to the contents. -/
theorem window_writeRun {n : ℕ} (slots : ℕ → α) {head count : ℕ} {l : List α} (hn : head < n)
    (hc : count + l.length ≤ n) (hrun : (head + count) % n + l.length ≤ n) :
    window n (writeRun slots ((head + count) % n) l) head (count + l.length) =
      window n slots head count ++ l := by
  rw [window_add]
  congr 1
  · refine window_congr fun i hi => writeRun_of_not_mem slots ?_
    rcases Nat.lt_or_ge (head + count) n with h | h
    · rw [Nat.mod_eq_of_lt h, Nat.mod_eq_of_lt (show head + i < n by omega)]
      omega
    · have hpos : (head + count) % n = head + count - n := by
        rw [Nat.mod_eq_sub_mod h]
        exact Nat.mod_eq_of_lt (by omega)
      rw [hpos] at hrun ⊢
      rcases Nat.lt_or_ge (head + i) n with h' | h'
      · rw [Nat.mod_eq_of_lt h']
        omega
      · rw [Nat.mod_eq_sub_mod h', Nat.mod_eq_of_lt (show head + i - n < n by omega)]
        omega
  · rw [window_run _ hrun]
    refine List.ext_getElem (by simp) fun i h1 h2 => ?_
    simp only [List.getElem_map, List.getElem_range]
    exact writeRun_add slots _ h2

end Ring
