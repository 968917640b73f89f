import Mathlib.Data.Set.Card
import Mathlib.Logic.Function.Basic

/-! Open addressing with linear probing: a table of `n` slots in which every key can be reached from
its hash over slots that are taken. -/
namespace Probe

/-- The slot after `i`. -/
def next (n i : ℕ) : ℕ := if i + 1 < n then i + 1 else 0

/-- How many slots lie from `a` up to `i`, going round at the end. -/
def dist (n a i : ℕ) : ℕ := if a ≤ i then i - a else i + n - a

section Distance

variable {n a i j : ℕ}

theorem dist_self (n a : ℕ) : dist n a a = 0 := by
  unfold dist
  rw [if_pos le_rfl, Nat.sub_self]

theorem dist_lt (ha : a < n) (hi : i < n) : dist n a i < n := by
  unfold dist
  split_ifs <;> omega

theorem eq_of_dist (ha : a < n) (hi : i < n) (hj : j < n) (h : dist n a i = dist n a j) :
    i = j := by
  unfold dist at h
  split_ifs at h <;> omega

theorem next_lt (hi : i < n) : next n i < n := by
  unfold next
  split_ifs <;> omega

theorem dist_next (ha : a < n) (hi : i < n) (h : dist n a i + 1 < n) :
    dist n a (next n i) = dist n a i + 1 := by
  unfold dist next at *
  split_ifs at * <;> omega

end Distance

/-- Where a search ends: at the key, at a free slot, or where it began. -/
inductive Result where
  | found (i : ℕ)
  | free (i : ℕ)
  | full
  deriving DecidableEq

variable {K : Type*} [DecidableEq K]

/-- The search for a key, for as many slots as are given. -/
def search (t : ℕ → Option K) (n : ℕ) (k : K) : ℕ → ℕ → Result
  | 0, _ => .full
  | left + 1, i =>
    match t i with
    | none => .free i
    | some k' => if k' = k then .found i else search t n k left (next n i)

/-- What the slots that a search has passed over hold. -/
def Passed (t : ℕ → Option K) (k : K) (j : ℕ) : Prop := ∃ k' ≠ k, t j = some k'

/-- What the end of a search says of the table. -/
def Says (t : ℕ → Option K) (n a : ℕ) (k : K) : Result → Prop
  | .found i => i < n ∧ t i = some k ∧ ∀ j < n, dist n a j < dist n a i → Passed t k j
  | .free i => i < n ∧ t i = none ∧ ∀ j < n, dist n a j < dist n a i → Passed t k j
  | .full => ∀ j < n, Passed t k j

theorem search_says {t : ℕ → Option K} {n a : ℕ} {k : K} (ha : a < n) {left i : ℕ} (hi : i < n)
    (hdist : dist n a i + left = n) (hpassed : ∀ j < n, dist n a j < dist n a i → Passed t k j) :
    Says t n a k (search t n k left i) := by
  induction left generalizing i with
  | zero => exact absurd (dist_lt ha hi) (by omega)
  | succ left ih =>
    rw [search]
    cases hti : t i with
    | none => exact ⟨hi, hti, hpassed⟩
    | some k' =>
      dsimp only
      split_ifs with hk
      · exact ⟨hi, hk ▸ hti, hpassed⟩
      · have hpass : Passed t k i := ⟨k', hk, hti⟩
        by_cases hlast : left = 0
        · -- every slot has been passed
          subst hlast
          intro j hj
          by_cases hji : dist n a j < dist n a i
          · exact hpassed j hj hji
          · have hjlt := dist_lt ha hj
            rwa [eq_of_dist ha hj hi (by omega)]
        · have hnext := dist_next ha hi (by omega)
          refine ih (next_lt hi) (by omega) fun j hj hji => ?_
          by_cases hji' : dist n a j < dist n a i
          · exact hpassed j hj hji'
          · rwa [eq_of_dist ha hj hi (by omega)]

/-- A search that starts at `a` and goes round once. -/
theorem search_spec (t : ℕ → Option K) {n a : ℕ} (k : K) (ha : a < n) :
    Says t n a k (search t n k n a) :=
  search_says ha ha (by rw [dist_self, Nat.zero_add]) fun j _ hj => by
    rw [dist_self] at hj
    exact absurd hj (Nat.not_lt_zero _)

/-- A search ends at the first slot that holds the key, in any table. -/
theorem search_eq_found {t : ℕ → Option K} {n a i : ℕ} {k : K} (ha : a < n) (hi : i < n)
    (hk : t i = some k)
    (hpassed : ∀ j < n, dist n a j < dist n a i → Passed t k j) : search t n k n a = .found i := by
  have hnot : ¬Passed t k i := by
    rintro ⟨k', hne, hk'⟩
    exact hne (Option.some.inj (hk'.symm.trans hk))
  have hspec := search_spec t k ha
  cases hr : search t n k n a with
  | found j =>
    rw [hr] at hspec
    obtain ⟨hj, htj, hbefore⟩ := hspec
    have hle : ¬dist n a i < dist n a j := fun hlt => hnot (hbefore i hi hlt)
    have hge : ¬dist n a j < dist n a i := by
      intro hlt
      obtain ⟨k', hne, hk'⟩ := hpassed j hj hlt
      exact hne (Option.some.inj (hk'.symm.trans htj))
    rw [eq_of_dist ha hj hi (by omega)]
  | free j =>
    rw [hr] at hspec
    obtain ⟨hj, htj, hbefore⟩ := hspec
    have hle : ¬dist n a i < dist n a j := fun hlt => hnot (hbefore i hi hlt)
    have hge : ¬dist n a j < dist n a i := by
      intro hlt
      obtain ⟨k', -, hk'⟩ := hpassed j hj hlt
      exact Option.some_ne_none k' (hk'.symm.trans htj)
    rw [eq_of_dist ha hj hi (by omega), hk] at htj
    exact absurd htj (Option.some_ne_none k)
  | full =>
    rw [hr] at hspec
    exact absurd (hspec i hi) hnot

/-- Every key is in one slot, and every slot between its hash and that one is taken. -/
structure Ok (hash : K → ℕ) (n : ℕ) (t : ℕ → Option K) : Prop where
  unique : ∀ i j k, i < n → j < n → t i = some k → t j = some k → i = j
  path : ∀ i k, i < n → t i = some k → ∀ j < n, dist n (hash k) j < dist n (hash k) i → t j ≠ none

variable {hash : K → ℕ} {n : ℕ} {t : ℕ → Option K}

omit [DecidableEq K] in
theorem ok_empty : Ok hash n fun _ => none :=
  ⟨fun _ _ _ _ _ h => absurd h (by simp), fun _ _ _ h => absurd h (by simp)⟩

theorem Ok.search_of_mem (h : Ok hash n t) {k : K} (hhash : hash k < n) {i : ℕ} (hi : i < n)
    (hk : t i = some k) :
    search t n k n (hash k) = .found i := by
  have hspec := search_spec t k hhash
  cases hs : search t n k n (hash k) with
  | found j =>
    rw [hs] at hspec
    rw [h.unique j i k hspec.1 hi hspec.2.1 hk]
  | free j =>
    rw [hs] at hspec
    obtain ⟨hj, hfree, hpassed⟩ := hspec
    exfalso
    rcases Nat.lt_trichotomy (dist n (hash k) i) (dist n (hash k) j) with hlt | heq | hlt
    · obtain ⟨k', hne, hk'⟩ := hpassed i hi hlt
      rw [hk] at hk'
      exact hne (Option.some.inj hk').symm
    · rw [eq_of_dist hhash hi hj heq, hfree] at hk
      exact absurd hk (by simp)
    · exact h.path i k hi hk j hj hlt hfree
  | full =>
    rw [hs] at hspec
    obtain ⟨k', hne, hk'⟩ := hspec i hi
    rw [hk] at hk'
    exact absurd (Option.some.inj hk').symm hne

omit [DecidableEq K] in
theorem Ok.insert (h : Ok hash n t) {k : K} {i : ℕ} (habsent : ∀ j < n, t j ≠ some k)
    (hfree : Says t n (hash k) k (.free i)) : Ok hash n (Function.update t i (some k)) := by
  obtain ⟨hi, hnone, hpassed⟩ := hfree
  refine ⟨fun a b k' ha hb hka hkb => ?_, fun a k' ha hka j hj hlt => ?_⟩
  · rw [Function.update_apply] at hka hkb
    split_ifs at hka hkb with h1 h2 h2
    · exact h1.trans h2.symm
    · obtain rfl := Option.some.inj hka
      exact absurd hkb (habsent b hb)
    · obtain rfl := Option.some.inj hkb
      exact absurd hka (habsent a ha)
    · exact h.unique a b k' ha hb hka hkb
  · rw [Function.update_apply] at hka ⊢
    split_ifs with hji
    · simp
    · split_ifs at hka with hai
      · obtain rfl := Option.some.inj hka
        rw [hai] at hlt
        obtain ⟨k'', -, hk''⟩ := hpassed j hj hlt
        rw [hk'']
        simp
      · exact h.path a k' ha hka j hj hlt

omit [DecidableEq K] in
/-- A key can be taken out if its slot is not on the way to another key. -/
theorem Ok.remove (h : Ok hash n t) {i : ℕ}
    (hway : ∀ j k, j < n → j ≠ i → t j = some k → ¬dist n (hash k) i < dist n (hash k) j) :
    Ok hash n (Function.update t i none) := by
  refine ⟨fun a b k ha hb hka hkb => ?_, fun a k ha hka j hj hlt => ?_⟩
  · rw [Function.update_apply] at hka hkb
    split_ifs at hka hkb
    exact h.unique a b k ha hb hka hkb
  · rw [Function.update_apply] at hka ⊢
    split_ifs at hka with hai
    split_ifs with hji
    · rw [hji] at hlt
      exact absurd hlt (hway a k ha hai hka)
    · exact h.path a k ha hka j hj hlt

/-- Otherwise the other key is lost. -/
theorem Ok.search_lost (h : Ok hash n t) {i j : ℕ} {k : K} (hhash : hash k < n) (hi : i < n)
    (hj : j < n) (hk : t j = some k) (hway : dist n (hash k) i < dist n (hash k) j) :
    ∃ f, search (Function.update t i none) n k n (hash k) = .free f := by
  have hspec := search_spec (Function.update t i none) k hhash
  cases hs : search (Function.update t i none) n k n (hash k) with
  | found f =>
    rw [hs] at hspec
    obtain ⟨hf, hkf, hpassed⟩ := hspec
    rw [Function.update_apply] at hkf
    split_ifs at hkf
    rw [h.unique f j k hf hj hkf hk] at hpassed
    obtain ⟨k', -, hk'⟩ := hpassed i hi hway
    rw [Function.update_self] at hk'
    exact absurd hk' (by simp)
  | free f => exact ⟨f, rfl⟩
  | full =>
    rw [hs] at hspec
    obtain ⟨k', -, hk'⟩ := hspec i hi
    rw [Function.update_self] at hk'
    exact absurd hk' (by simp)

/-- A search that finds no place has passed as many keys as there are slots. -/
theorem Ok.le_ncard (h : Ok hash n t) {k : K} (hfull : ∀ j < n, Passed t k j) {s : Set K}
    (hs : s.Finite) (hmem : ∀ i < n, ∀ k, t i = some k → k ∈ s) : n ≤ s.ncard := by
  classical
  have hne : Nonempty K := ⟨k⟩
  have hkey : ∀ i, i < n → ∃ k', t i = some k' := fun i hi => (hfull i hi).imp fun _ hk => hk.2
  choose! key hkey using hkey
  have hinj : Set.InjOn key (Finset.range n) := by
    intro i hi j hj hij
    have hi' := Finset.mem_range.mp hi
    have hj' := Finset.mem_range.mp hj
    exact h.unique i j (key i) hi' hj' (hkey i hi') (hij ▸ hkey j hj')
  calc
    n = ((Finset.range n).image key).card := by
      rw [Finset.card_image_of_injOn hinj, Finset.card_range]
    _ = (((Finset.range n).image key : Finset K) : Set K).ncard := (Set.ncard_coe_finset _).symm
    _ ≤ s.ncard := by
      refine Set.ncard_le_ncard (fun k hk => ?_) hs
      obtain ⟨i, hi, rfl⟩ := Finset.mem_image.mp hk
      exact hmem i (Finset.mem_range.mp hi) _ (hkey i (Finset.mem_range.mp hi))

end Probe
