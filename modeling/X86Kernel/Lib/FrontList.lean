import Mathlib.Data.List.Basic
import Mathlib.Data.List.Nodup
import Mathlib.Data.List.Range
import Mathlib.Logic.Function.Basic

/-! Lists without repetition at the front of an array, with nulls behind them: the loops that shift
the cells of the array in place, and what they make of the list. -/
namespace FrontList

variable {α : Type*} {n m : ℕ} {o : ℕ → Option α} {l : List α}

/-- The array of `n` cells holds the list, and nulls behind it. -/
def Represents (n : ℕ) (o : ℕ → Option α) (l : List α) : Prop := l.length ≤ n ∧ ∀ k < n, o k = l[k]?

/-- The elements of an array, in their order. -/
def elements (n : ℕ) (o : ℕ → Option α) : List α := (List.range n).filterMap o

/-- `for(i = n; i > 0; i--) o[i] = o[i-1]` -/
def shiftUp (o : ℕ → Option α) : ℕ → ℕ → Option α
  | 0 => o
  | i + 1 => shiftUp (Function.update o (i + 1) (o i)) i

/-- `for(j = i; j < i + n; j++) o[j] = o[j+1]` -/
def shiftDown (o : ℕ → Option α) (j : ℕ) : ℕ → ℕ → Option α
  | 0 => o
  | n + 1 => shiftDown (Function.update o j (o (j + 1))) (j + 1) n

theorem shiftUp_apply (o : ℕ → Option α) (i k : ℕ) :
    shiftUp o i k = if 0 < k ∧ k ≤ i then o (k - 1) else o k := by
  induction i generalizing o with
  | zero =>
    rw [if_neg (by omega)]
    rfl
  | succ i ih =>
    rw [shiftUp, ih]
    by_cases hk : 0 < k ∧ k ≤ i
    · rw [if_pos hk, if_pos (by omega), Function.update_of_ne (by omega)]
    · rw [if_neg hk]
      by_cases hlast : k = i + 1
      · rw [if_pos (by omega), hlast, Function.update_self]
        rfl
      · rw [if_neg (by omega), Function.update_of_ne hlast]

theorem shiftDown_apply (o : ℕ → Option α) (j m k : ℕ) :
    shiftDown o j m k = if j ≤ k ∧ k < j + m then o (k + 1) else o k := by
  induction m generalizing o j with
  | zero =>
    rw [if_neg (by omega)]
    rfl
  | succ m ih =>
    rw [shiftDown, ih]
    by_cases hk : j + 1 ≤ k ∧ k < j + 1 + m
    · rw [if_pos hk, if_pos (by omega), Function.update_of_ne (by omega)]
    · rw [if_neg hk]
      by_cases hfirst : k = j
      · rw [if_pos (by omega), hfirst, Function.update_self]
      · rw [if_neg (by omega), Function.update_of_ne hfirst]

/-- The first cell is the head. -/
theorem Represents.zero (h : Represents n o l) (hn : 0 < n) : o 0 = l.head? := by
  rw [h.2 0 hn, List.head?_eq_getElem?]

theorem Represents.filterMap_range (h : Represents n o l) {k : ℕ} (hk : k ≤ n) :
    (List.range k).filterMap o = l.take k := by
  induction k with
  | zero => simp
  | succ k ih =>
    rw [List.range_succ, List.filterMap_append, ih (by omega), List.take_add_one]
    congr 1
    cases hcell : l[k]? <;> simp [h.2 k hk, hcell]

theorem Represents.elements_eq (h : Represents n o l) : elements n o = l := by
  rw [elements, h.filterMap_range le_rfl, List.take_of_length_le h.1]

/-- The first null of the first `m` cells. -/
def firstNull (o : ℕ → Option α) (m : ℕ) : Option ℕ := (List.range m).find? fun i => (o i).isNone

theorem Represents.firstNull_eq (h : Represents n o l) (hlt : l.length < n) :
    firstNull o n = some l.length := by
  rw [firstNull, List.find?_range_eq_some]
  refine ⟨?_, List.mem_range.mpr hlt, ?_⟩
  · rw [h.2 _ hlt]
    simp
  · intro j hj
    rw [h.2 _ (by omega), List.getElem?_eq_getElem hj]
    simp

/-- The first null gets `a`. -/
theorem Represents.append {a : α} (h : Represents n o l) (hlt : l.length < n) :
    Represents n (Function.update o l.length (some a)) (l ++ [a]) := by
  refine ⟨by rw [List.length_append]; exact hlt, fun k hk => ?_⟩
  by_cases hlast : k = l.length
  · rw [hlast, Function.update_self]
    simp
  · rw [Function.update_of_ne hlast, h.2 k hk]
    by_cases hk' : k < l.length
    · rw [List.getElem?_append_left hk']
    · rw [List.getElem?_eq_none (by omega), List.getElem?_eq_none (by simp; omega)]

variable [DecidableEq α]

/-- The first cell, of the first `m`, that holds `a`. -/
def find (o : ℕ → Option α) (m : ℕ) (a : α) : Option ℕ := (List.range m).find? fun i => o i = some a

theorem Represents.find_eq {a : α} (h : Represents n o l) (ha : a ∈ l) (hm : l.length ≤ m)
    (hmn : m ≤ n) :
    find o m a = some (l.idxOf a) := by
  have hlt : l.idxOf a < l.length := List.idxOf_lt_length_of_mem ha
  rw [find, List.find?_range_eq_some]
  refine ⟨?_, List.mem_range.mpr (by omega), ?_⟩
  · rw [h.2 _ (by omega), List.getElem?_eq_getElem hlt]
    simp
  · intro j hj
    rw [h.2 _ (by omega), List.getElem?_eq_getElem (by omega)]
    simpa using List.not_of_lt_findIdx hj

/-- The cells up to that of `a` are shifted up, and `a` is put in front. -/
theorem Represents.moveToFront {a : α} (h : Represents n o l) (ha : a ∈ l) :
    Represents n (Function.update (shiftUp o (l.idxOf a)) 0 (some a)) (a :: l.erase a) := by
  have hlt : l.idxOf a < l.length := List.idxOf_lt_length_of_mem ha
  have hlen := List.length_erase_of_mem ha
  refine ⟨?_, fun k hk => ?_⟩
  · rw [List.length_cons, hlen]
    have := h.1
    omega
  · cases k with
    | zero => rw [Function.update_self, List.getElem?_cons_zero]
    | succ k =>
      rw [Function.update_of_ne (Nat.succ_ne_zero k), List.getElem?_cons_succ, shiftUp_apply,
        List.erase_eq_eraseIdx_of_idxOf rfl, List.getElem?_eraseIdx]
      by_cases hk' : k < l.idxOf a
      · rw [if_pos (by omega), if_pos hk']
        exact h.2 k (by omega)
      · rw [if_neg (by omega), if_neg hk']
        exact h.2 (k + 1) hk

/-- The cells behind that of `a`, of the first `m`, are shifted down, and the last is made a
null. -/
theorem Represents.erase {a : α} (h : Represents n o l) (ha : a ∈ l) (hm : l.length ≤ m)
    (hmn : m ≤ n) :
    Represents n (Function.update (shiftDown o (l.idxOf a) (m - 1 - l.idxOf a)) (m - 1) none)
      (l.erase a) := by
  have hlt : l.idxOf a < l.length := List.idxOf_lt_length_of_mem ha
  have hlen := List.length_erase_of_mem ha
  refine ⟨by have := h.1; omega, fun k hk => ?_⟩
  rw [List.erase_eq_eraseIdx_of_idxOf rfl, List.getElem?_eraseIdx]
  by_cases hlast : k = m - 1
  · rw [hlast, Function.update_self, if_neg (by omega), eq_comm, List.getElem?_eq_none_iff]
    omega
  · rw [Function.update_of_ne hlast, shiftDown_apply]
    by_cases hk' : k < l.idxOf a
    · rw [if_neg (by omega), if_pos hk']
      exact h.2 k hk
    · rw [if_neg hk']
      by_cases hshift : k < m - 1
      · rw [if_pos (by omega)]
        exact h.2 (k + 1) (by omega)
      · rw [if_neg (by omega), h.2 k hk, List.getElem?_eq_none (by omega),
          List.getElem?_eq_none (by omega)]

end FrontList
