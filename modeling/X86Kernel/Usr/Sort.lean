import X86Kernel.Lib.Rearranged
import Mathlib.Order.Interval.Set.Basic
import Mathlib.Tactic

/-! The quicksort of `usr/lib/sort.c`. -/
namespace X86Kernel.Usr

/-- A comparison function that is a total preorder. -/
structure Comparison (α : Type*) where
  cmp : α → α → ℤ
  swap : ∀ x y, cmp x y < 0 ↔ 0 < cmp y x
  trans : ∀ x y z, cmp x y ≤ 0 → cmp y z ≤ 0 → cmp x z ≤ 0

def cmpInt (a b : ℤ) : ℤ := (if b < a then 1 else 0) - (if a < b then 1 else 0)

/-- The comparison that `sorti` passes. -/
def intComparison : Comparison ℤ where
  cmp := cmpInt
  swap x y := by
    unfold cmpInt
    split_ifs <;> omega
  trans x y z := by
    unfold cmpInt
    split_ifs <;> omega

/-- The memory by element indexes from `arr`, those outside of the array included; which of them
were read or written. -/
structure Elems (α : Type*) where
  elem : ℤ → α
  touched : List ℤ

namespace Elems

variable {α : Type*}

def touch (a : Elems α) (i : ℤ) : Elems α := { a with touched := a.touched ++ [i] }

/-- `swap` of the elements at `i` and `j`: one goes into `temp`. -/
def swap (a : Elems α) (i j : ℤ) : Elems α :=
  let temp := a.elem i
  ⟨Function.update (Function.update a.elem i (a.elem j)) j temp, a.touched ++ [i, j]⟩

variable (cmp : α → α → ℤ)

/-- The loop that looks for an element that is not below the pivot; `none` where `turns` are not
enough. -/
def scanUp (pivot : α) : ℕ → Elems α → ℤ → Option (Elems α × ℤ)
  | 0, _, _ => none
  | turns + 1, a, i =>
    let i := i + 1
    if cmp (a.elem i) pivot < 0 then scanUp pivot turns (a.touch i) i else some (a.touch i, i)

/-- The loop that looks for an element that is not above the pivot. -/
def scanDown (pivot : α) : ℕ → Elems α → ℤ → Option (Elems α × ℤ)
  | 0, _, _ => none
  | turns + 1, a, j =>
    let j := j - 1
    if 0 < cmp (a.elem j) pivot then scanDown pivot turns (a.touch j) j else some (a.touch j, j)

def partitionLoop (pivot : α) : ℕ → Elems α → ℤ → ℤ → Option (Elems α × ℤ)
  | 0, _, _, _ => none
  | turns + 1, a, i, j =>
    match scanUp cmp pivot turns a i with
    | none => none
    | some (a, i) =>
      match scanDown cmp pivot turns a j with
      | none => none
      | some (a, j) => if j ≤ i then some (a, j) else partitionLoop pivot turns (a.swap i j) i j

def partition (turns : ℕ) (a : Elems α) (low high : ℤ) : Option (Elems α × ℤ) :=
  let mid := low + (high - low).tdiv 2
  partitionLoop cmp (a.elem mid) turns (a.touch mid) (low - 1) (high + 1)

/-- `quicksort`, each loop and each chain of calls for at most `turns`. -/
def quicksort : ℕ → Elems α → ℤ → ℤ → Option (Elems α)
  | 0, _, _, _ => none
  | turns + 1, a, low, high =>
    if low < high then
      match partition cmp turns a low high with
      | none => none
      | some (a, pi) =>
        match quicksort turns a low pi with
        | none => none
        | some a => quicksort turns a (pi + 1) high
    else some a

def sort (turns : ℕ) (a : Elems α) (n : ℤ) : Option (Elems α) := quicksort cmp turns a 0 (n - 1)

/-- The array of `n` elements. -/
def contents (a : Elems α) (n : ℕ) : List α := (List.range n).map fun k : ℕ => a.elem k

/-! ### The scans -/

variable {cmp} {a a' : Elems α} {pivot : α} {turns : ℕ} {i j k low high : ℤ}

@[simp] theorem touch_elem (a : Elems α) (i : ℤ) : (a.touch i).elem = a.elem := rfl

@[simp] theorem touch_touched (a : Elems α) (i : ℤ) : (a.touch i).touched = a.touched ++ [i] := rfl

/-- Every element read or written so far is one from `low` to `high`. -/
def Within (a : Elems α) (low high : ℤ) : Prop := ∀ x ∈ a.touched, x ∈ Set.Icc low high

theorem Within.touch (h : a.Within low high) (hi : i ∈ Set.Icc low high) :
    (a.touch i).Within low high := by
  intro x hx
  rw [touch_touched, List.mem_append, List.mem_singleton] at hx
  rcases hx with hx | rfl
  · exact h x hx
  · exact hi

theorem Within.swap (h : a.Within low high) (hi : i ∈ Set.Icc low high)
    (hj : j ∈ Set.Icc low high) :
    (a.swap i j).Within low high := by
  intro x hx
  simp only [Elems.swap, List.mem_append, List.mem_cons, List.not_mem_nil, or_false] at hx
  rcases hx with hx | rfl | rfl
  · exact h x hx
  · exact hi
  · exact hj

theorem swap_elem (a : Elems α) (i j x : ℤ) : (a.swap i j).elem x = a.elem (Equiv.swap i j x) := by
  unfold Elems.swap
  dsimp only
  by_cases hj : x = j
  · subst hj
    rw [Function.update_self, Equiv.swap_apply_right]
  rw [Function.update_of_ne hj]
  by_cases hi : x = i
  · subst hi
    rw [Function.update_self, Equiv.swap_apply_left]
  rw [Function.update_of_ne hi, Equiv.swap_apply_of_ne_of_ne hi hj]

/-- An element that is not below the pivot stops the scan, wherever the array ends. -/
theorem scanUp_spec (turns : ℕ) (hk : i < k) (hsentinel : 0 ≤ cmp (a.elem k) pivot)
    (hturns : k - i ≤ turns) (hin : a.Within low high) (hlow : low ≤ i + 1) (hhigh : k ≤ high) :
    ∃ a' i', scanUp cmp pivot turns a i = some (a', i') ∧ a'.elem = a.elem ∧ a'.Within low high ∧
      i < i' ∧ i' ≤ k ∧ 0 ≤ cmp (a.elem i') pivot ∧ ∀ x, i < x → x < i' →
        cmp (a.elem x) pivot < 0 := by
  induction turns generalizing a i with
  | zero => omega
  | succ turns ih =>
    have hnext : a.Within low high → (a.touch (i + 1)).Within low high :=
      fun h => h.touch ⟨hlow, by omega⟩
    rw [scanUp]
    split_ifs with hlt
    · have hne : i + 1 ≠ k := by
        rintro rfl
        omega
      obtain ⟨a', i', hrun, helem, hin', hi, hle, hstop, hpassed⟩ :=
        ih (a := a.touch (i + 1)) (i := i + 1) (by omega) hsentinel (by omega)
          (hnext hin) (by omega)
      refine ⟨a', i', hrun, helem, hin', by omega, hle, hstop, fun x hx hx' => ?_⟩
      by_cases hfirst : x = i + 1
      · rwa [hfirst]
      · exact hpassed x (by omega) hx'
    · exact ⟨_, _, rfl, rfl, hnext hin, by omega, by omega, not_lt.mp hlt, fun x hx hx' => by omega⟩

theorem scanDown_spec (turns : ℕ) (hk : k < j) (hsentinel : cmp (a.elem k) pivot ≤ 0)
    (hturns : j - k ≤ turns) (hin : a.Within low high) (hlow : low ≤ k) (hhigh : j - 1 ≤ high) :
    ∃ a' j', scanDown cmp pivot turns a j = some (a', j') ∧ a'.elem = a.elem ∧ a'.Within low high ∧
      j' < j ∧ k ≤ j' ∧ cmp (a.elem j') pivot ≤ 0 ∧ ∀ x, j' < x → x < j →
        0 < cmp (a.elem x) pivot := by
  induction turns generalizing a j with
  | zero => omega
  | succ turns ih =>
    have hnext : a.Within low high → (a.touch (j - 1)).Within low high :=
      fun h => h.touch ⟨by omega, hhigh⟩
    rw [scanDown]
    split_ifs with hlt
    · have hne : j - 1 ≠ k := by
        rintro rfl
        omega
      obtain ⟨a', j', hrun, helem, hin', hj, hle, hstop, hpassed⟩ :=
        ih (a := a.touch (j - 1)) (j := j - 1) (by omega) hsentinel (by omega)
          (hnext hin) (by omega)
      refine ⟨a', j', hrun, helem, hin', by omega, hle, hstop, fun x hx hx' => ?_⟩
      by_cases hfirst : x = j - 1
      · rwa [hfirst]
      · exact hpassed x hx (by omega)
    · exact ⟨_, _, rfl, rfl, hnext hin, by omega, by omega, not_lt.mp hlt, fun x hx hx' => by omega⟩

/-! ### The partition -/

/-- Between two turns of the partition: what `i` and `j` have passed over, and an element that stops
each of them. -/
structure Parting (cmp : α → α → ℤ) (pivot : α) (a : Elems α) (low high i j : ℤ) : Prop where
  lt : i < j
  low_le : low - 1 ≤ i
  le_high : j ≤ high + 1
  below : ∀ x, low ≤ x → x ≤ i → cmp (a.elem x) pivot ≤ 0
  above : ∀ x, j ≤ x → x ≤ high → 0 ≤ cmp (a.elem x) pivot
  /-- In the first turn the pivot, which is not the last element, and then the element at `j`. -/
  stopUp : ∃ k, i < k ∧ k ≤ j ∧ k ≤ high ∧ 0 ≤ cmp (a.elem k) pivot ∧ (k < high ∨ j ≤ high)
  stopDown : ∃ k, low ≤ k ∧ i ≤ k ∧ k < j ∧ cmp (a.elem k) pivot ≤ 0

/-- The array is parted after `pi`, which is not its last place. -/
structure Parted (cmp : α → α → ℤ) (pivot : α) (a : Elems α) (low high pi : ℤ) : Prop where
  low_le : low ≤ pi
  lt_high : pi < high
  below : ∀ x, low ≤ x → x ≤ pi → cmp (a.elem x) pivot ≤ 0
  above : ∀ x, pi < x → x ≤ high → 0 ≤ cmp (a.elem x) pivot

theorem partitionLoop_spec (turns : ℕ) (h : Parting cmp pivot a low high i j) {first last : ℤ}
    (hfirst : first ≤ low) (hlast : high ≤ last) (hin : a.Within first last)
    (hturns : j - i < turns) :
    ∃ a' pi, partitionLoop cmp pivot turns a i j = some (a', pi) ∧
      Rearranged (Set.Icc low high) a.elem a'.elem ∧
      a'.Within first last ∧ Parted cmp pivot a' low high pi := by
  induction turns generalizing a i j with
  | zero =>
    have := h.lt
    omega
  | succ turns ih =>
    obtain ⟨ku, hiku, hkuj, hkuhigh, hcu, hend⟩ := h.stopUp
    obtain ⟨kd, hlowkd, hikd, hkdj, hcd⟩ := h.stopDown
    have hlow := h.low_le
    have hhigh := h.le_high
    obtain ⟨a₁, i', hup, helem₁, hin₁, hi, hik, hci, hpassed⟩ :=
      scanUp_spec turns hiku hcu (by omega) hin (by omega) (by omega)
    rw [← helem₁] at hcd
    obtain ⟨a₂, j', hdown, helem₂, hin₂, hj, hjk, hcj, hpassed'⟩ :=
      scanDown_spec turns hkdj hcd (by omega) hin₁ (by omega) (by omega)
    rw [helem₁] at helem₂ hcj hpassed'
    rw [partitionLoop, hup]
    dsimp only
    rw [hdown]
    dsimp only
    have hbelow : ∀ x, low ≤ x → x < i' → cmp (a.elem x) pivot ≤ 0 := by
      intro x hx hx'
      by_cases hxi : x ≤ i
      · exact h.below x hx hxi
      · exact (hpassed x (by omega) hx').le
    have habove : ∀ x, j' < x → x ≤ high → 0 ≤ cmp (a.elem x) pivot := by
      intro x hx hx'
      by_cases hxj : j ≤ x
      · exact h.above x hxj hx'
      · exact (hpassed' x hx (by omega)).le
    split_ifs with hcross
    · refine ⟨a₂, j', rfl, ?_, hin₂, by omega, by omega, fun x hx hx' => ?_, fun x hx hx' => ?_⟩
      · rw [helem₂]
        exact .refl _ _
      · rw [helem₂]
        by_cases hxj : x = j'
        · rwa [hxj]
        · exact hbelow x hx (by omega)
      · rw [helem₂]
        exact habove x hx hx'
    · have hi' : i' ∈ Set.Icc low high := ⟨by omega, by omega⟩
      have hj' : j' ∈ Set.Icc low high := ⟨by omega, by omega⟩
      have hswap : ∀ x, (a₂.swap i' j').elem x = a.elem (Equiv.swap i' j' x) := fun x => by
        rw [swap_elem, helem₂]
      have hfrom : (a₂.swap i' j').elem i' = a.elem j' := by rw [hswap, Equiv.swap_apply_left]
      have hto : (a₂.swap i' j').elem j' = a.elem i' := by rw [hswap, Equiv.swap_apply_right]
      have hkept : ∀ x, x ≠ i' → x ≠ j' → (a₂.swap i' j').elem x = a.elem x := by
        intro x hx hx'
        rw [hswap, Equiv.swap_apply_of_ne_of_ne hx hx']
      have hnext : Parting cmp pivot (a₂.swap i' j') low high i' j' := by
        refine ⟨by omega, by omega, by omega, fun x hx hx' => ?_, fun x hx hx' => ?_, ?_, ?_⟩
        · by_cases hxi : x = i'
          · rwa [hxi, hfrom]
          · rw [hkept x hxi (by omega)]
            exact hbelow x hx (by omega)
        · by_cases hxj : x = j'
          · rwa [hxj, hto]
          · rw [hkept x (by omega) hxj]
            exact habove x (by omega) hx'
        · exact ⟨j', by omega, le_rfl, hj'.2, by rwa [hto], .inr hj'.2⟩
        · exact ⟨i', hi'.1, le_rfl, by omega, by rwa [hfrom]⟩
      obtain ⟨a', pi, hrun, hperm, hin', hparted⟩ :=
        ih hnext (hin₂.swap ⟨by omega, by omega⟩ ⟨by omega, by omega⟩) (by omega)
      refine ⟨a', pi, hrun, .trans ?_ hperm, hin', hparted⟩
      rw [show (a₂.swap i' j').elem = fun x => a.elem (Equiv.swap i' j' x) from funext hswap]
      exact .swap hi' hj' a.elem

/-- The pivot lies between the two ends and is not the last element, which is why the first turn
cannot end there. -/
theorem partition_spec (turns : ℕ) (c : Comparison α) (hlt : low < high) {first last : ℤ}
    (hfirst : first ≤ low)
    (hlast : high ≤ last) (hin : a.Within first last) (hturns : high - low + 2 < turns) :
    ∃ a' pi pivot, partition c.cmp turns a low high = some (a', pi) ∧
      Rearranged (Set.Icc low high) a.elem a'.elem ∧ a'.Within first last ∧
      Parted c.cmp pivot a' low high pi := by
  have hdiv : (high - low).tdiv 2 = (high - low) / 2 := Int.tdiv_eq_ediv_of_nonneg (by omega)
  have hself : c.cmp (a.elem (low + (high - low) / 2)) (a.elem (low + (high - low) / 2)) = 0 := by
    have hiff := c.swap (a.elem (low + (high - low) / 2)) (a.elem (low + (high - low) / 2))
    omega
  have hstart : Parting c.cmp (a.elem (low + (high - low) / 2))
        (a.touch (low + (high - low) / 2)) low high (low - 1)
      (high + 1) := by
    refine ⟨by omega, le_rfl, le_rfl, fun x hx hx' => by omega, fun x hx hx' => by omega, ?_, ?_⟩
    · exact ⟨low + (high - low) / 2, by omega, by omega, by omega, hself.ge, .inl (by omega)⟩
    · exact ⟨low + (high - low) / 2, by omega, by omega, by omega, hself.le⟩
  unfold partition
  rw [hdiv]
  obtain ⟨a', pi, hrun, hperm, hin', hparted⟩ :=
    partitionLoop_spec turns hstart hfirst hlast (hin.touch ⟨by omega, by omega⟩) (by omega)
  exact ⟨a', pi, _, hrun, hperm, hin', hparted⟩

/-! ### The sort -/

/-- No element is above a later one. -/
def Ordered (cmp : α → α → ℤ) (a : Elems α) (low high : ℤ) : Prop :=
  ∀ x y, low ≤ x → x < y → y ≤ high → cmp (a.elem x) (a.elem y) ≤ 0

/-- Two ordered parts on the two sides of a pivot. -/
theorem Ordered.join (c : Comparison α) {pi : ℤ} (hleft : Ordered c.cmp a low pi)
    (hright : Ordered c.cmp a (pi + 1) high) (hparted : Parted c.cmp pivot a low high pi) :
    Ordered c.cmp a low high := by
  intro x y hx hxy hy
  by_cases hy' : y ≤ pi
  · exact hleft x y hx hxy hy'
  by_cases hx' : pi < x
  · exact hright x y (by omega) hxy hy
  · apply c.trans _ pivot
    · exact hparted.below x hx (by omega)
    · have habove := hparted.above y (by omega) hy
      by_contra hlt
      have hneg := (c.swap _ _).mpr (not_le.mp hlt)
      omega

theorem quicksort_spec (turns : ℕ) (c : Comparison α) {first last : ℤ} (hfirst : first ≤ low)
    (hlast : high ≤ last) (hin : a.Within first last) (hturns : high - low + 4 < turns)
    (hpos : 0 < turns) :
    ∃ a', quicksort c.cmp turns a low high = some a' ∧
      Rearranged (Set.Icc low high) a.elem a'.elem ∧
      a'.Within first last ∧ Ordered c.cmp a' low high := by
  induction turns generalizing a low high with
  | zero => omega
  | succ turns ih =>
    rw [quicksort]
    split_ifs with hlt
    · obtain ⟨a₁, pi, pivot, hpart, hperm₁, hin₁, hparted⟩ :=
        partition_spec turns c hlt hfirst hlast hin (by omega)
      have hlow := hparted.low_le
      have hhigh := hparted.lt_high
      obtain ⟨a₂, hleft, hperm₂, hin₂, hordered₂⟩ :=
        ih hfirst (show pi ≤ last by omega) hin₁ (by omega) (by omega)
      obtain ⟨a₃, hright, hperm₃, hin₃, hordered₃⟩ :=
        ih (show first ≤ pi + 1 by omega) hlast hin₂ (by omega) (by omega)
      rw [hpart]
      dsimp only
      rw [hleft]
      dsimp only
      -- the two calls move elements on their own side only
      have hbelow₂ := hperm₂.forall_mem (P := fun x => c.cmp x pivot ≤ 0) fun x hx =>
        hparted.below x hx.1 hx.2
      have habove₃ := hperm₃.forall_mem (P := fun x => 0 ≤ c.cmp x pivot) fun x hx => by
        rw [hperm₂.outside fun hmem => by have := hx.1; have := hmem.2; omega]
        exact hparted.above x (by have := hx.1; omega) hx.2
      have hkept : ∀ x, x ≤ pi → a₃.elem x = a₂.elem x := fun x hx =>
        hperm₃.outside fun hmem => by have := hmem.1; omega
      refine ⟨a₃, hright, ?_, hin₃, ?_⟩
      · refine (hperm₁.trans (hperm₂.mono ?_)).trans (hperm₃.mono ?_)
        · exact Set.Icc_subset_Icc le_rfl (by omega)
        · exact Set.Icc_subset_Icc (by omega) le_rfl
      · have hleft₃ : Ordered c.cmp a₃ low pi := by
          intro x y hx hxy hy
          rw [hkept x (by omega), hkept y hy]
          exact hordered₂ x y hx hxy hy
        have hparted₃ : Parted c.cmp pivot a₃ low high pi := by
          constructor
          · exact hlow
          · exact hhigh
          · intro x hx hx'
            rw [hkept x hx']
            exact hbelow₂ x ⟨hx, hx'⟩
          · intro x hx hx'
            exact habove₃ x ⟨by omega, hx'⟩
        exact Ordered.join c hleft₃ hordered₃ hparted₃
    · exact ⟨a, rfl, .refl _ _, hin, fun x y hx hxy hy => by omega⟩

/-! ### A larger bound on the turns changes nothing -/

theorem scanUp_more {r : Elems α × ℤ} (h : scanUp cmp pivot turns a i = some r) :
    scanUp cmp pivot (turns + 1) a i = some r := by
  induction turns generalizing a i with
  | zero => simp [scanUp] at h
  | succ turns ih =>
    rw [scanUp] at h ⊢
    split_ifs at h ⊢ with hlt
    · exact ih h
    · exact h

theorem scanDown_more {r : Elems α × ℤ} (h : scanDown cmp pivot turns a j = some r) :
    scanDown cmp pivot (turns + 1) a j = some r := by
  induction turns generalizing a j with
  | zero => simp [scanDown] at h
  | succ turns ih =>
    rw [scanDown] at h ⊢
    split_ifs at h ⊢ with hlt
    · exact ih h
    · exact h

theorem partitionLoop_more {r : Elems α × ℤ} (h : partitionLoop cmp pivot turns a i j = some r) :
    partitionLoop cmp pivot (turns + 1) a i j = some r := by
  induction turns generalizing a i j with
  | zero => simp [partitionLoop] at h
  | succ turns ih =>
    rw [partitionLoop] at h ⊢
    cases hup : scanUp cmp pivot turns a i with
    | none => simp [hup] at h
    | some up =>
      cases hdown : scanDown cmp pivot turns up.1 j with
      | none => simp [hup, hdown] at h
      | some down =>
        rw [scanUp_more hup]
        dsimp only
        rw [scanDown_more hdown]
        dsimp only
        rw [hup] at h
        dsimp only at h
        rw [hdown] at h
        dsimp only at h
        split_ifs at h ⊢ with hcross
        · exact h
        · exact ih h

theorem quicksort_more {r : Elems α} (h : quicksort cmp turns a low high = some r) :
    quicksort cmp (turns + 1) a low high = some r := by
  induction turns generalizing a low high r with
  | zero => simp [quicksort] at h
  | succ turns ih =>
    rw [quicksort] at h ⊢
    split_ifs at h ⊢ with hlt
    · cases hpart : partition cmp turns a low high with
      | none => simp [hpart] at h
      | some parted =>
        have hpart' : partition cmp (turns + 1) a low high = some parted := partitionLoop_more hpart
        rw [hpart] at h
        rw [hpart']
        dsimp only at h ⊢
        cases hleft : quicksort cmp turns parted.1 low parted.2 with
        | none => simp [hleft] at h
        | some left =>
          rw [hleft] at h
          rw [ih hleft]
          exact ih h
    · exact h

theorem quicksort_enough {r : Elems α} (h : quicksort cmp turns a low high = some r) {more : ℕ}
    (hle : turns ≤ more) :
    quicksort cmp more a low high = some r := by
  induction more, hle using Nat.le_induction with
  | base => exact h
  | succ more _ ih => exact quicksort_more ih

/-- The sort ends, with the same elements in order, and reads and writes none but them. -/
theorem sort_sorts (c : Comparison α) (elem : ℤ → α) (n : ℕ) :
    ∃ a : Elems α, (∀ turns ≥ n + 4, sort c.cmp turns ⟨elem, []⟩ n = some a) ∧
      (a.contents n).Perm ((⟨elem, []⟩ : Elems α).contents n) ∧
      (a.contents n).Pairwise (fun x y => c.cmp x y ≤ 0) ∧
      (∀ x, x < 0 ∨ (n : ℤ) ≤ x → a.elem x = elem x) ∧
      ∀ x ∈ a.touched, 0 ≤ x ∧ x < n := by
  have hnone : (⟨elem, []⟩ : Elems α).Within 0 ((n : ℤ) - 1) := fun x hx => by simp at hx
  obtain ⟨a, hrun, hperm, hin, hordered⟩ :=
    quicksort_spec (n + 4) c le_rfl le_rfl hnone (by push_cast; omega) (by omega)
  refine ⟨a, fun turns hturns => quicksort_enough hrun hturns, ?_, ?_, fun x hx => ?_,
    fun x hx => ?_⟩
  · have hnodup : ((List.range n).map fun k : ℕ => (k : ℤ)).Nodup :=
      List.nodup_range.map Nat.cast_injective
    have hlist := hperm.map_perm hnodup fun x hx => by
      have h0 := hx.1
      have h1 := hx.2
      rw [List.mem_map]
      exact ⟨x.toNat, by rw [List.mem_range]; omega, by omega⟩
    simpa [contents, Function.comp_def] using hlist
  · rw [contents, List.pairwise_map]
    refine List.pairwise_lt_range.imp_of_mem fun {x y} _ hy hxy => ?_
    have hlast := List.mem_range.mp hy
    exact hordered x y (by omega) (by omega) (by omega)
  · apply hperm.outside
    rintro ⟨h0, h1⟩
    omega
  · have hmem := hin x hx
    exact ⟨hmem.1, by have := hmem.2; omega⟩

end Elems

end X86Kernel.Usr
