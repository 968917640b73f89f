import Mathlib.Data.Nat.Digits.Lemmas
import Mathlib.Tactic

/-! Numerals: digits, the most significant first, and what they stand for. -/
namespace Numeral

variable {b n : ℕ}

/-- The last `k` digits of `n`. -/
def padded (b : ℕ) : ℕ → ℕ → List ℕ
  | 0, _ => []
  | k + 1, n => padded b k (n / b) ++ [n % b]

/-- The numeral without leading zeros. -/
def digits (b n : ℕ) : List ℕ := if n = 0 then [0] else (Nat.digits b n).reverse

/-- What digits stand for. -/
def value (b : ℕ) (l : List ℕ) : ℕ := l.foldl (fun v d => v * b + d) 0

@[simp] theorem length_padded (b k n : ℕ) : (padded b k n).length = k := by
  induction k generalizing n with
  | zero => rfl
  | succ k ih => rw [padded, List.length_append, ih, List.length_singleton]

/-- As many places as there are digits. -/
theorem padded_length (hb : 1 < b) (n : ℕ) :
    padded b (Nat.digits b n).length n = (Nat.digits b n).reverse := by
  induction n using Nat.strong_induction_on with
  | _ n ih =>
    rcases Nat.eq_zero_or_pos n with rfl | hn
    · simp [padded]
    · rw [Nat.digits_def' hb hn, List.length_cons, padded, ih _ (Nat.div_lt_self hn hb),
        List.reverse_cons]

/-- One place more than there are digits. -/
theorem padded_length_succ (hb : 1 < b) (n : ℕ) :
    padded b ((Nat.digits b n).length + 1) n = 0 :: (Nat.digits b n).reverse := by
  induction n using Nat.strong_induction_on with
  | _ n ih =>
    rcases Nat.eq_zero_or_pos n with rfl | hn
    · simp [padded]
    · rw [padded, Nat.digits_def' hb hn, List.length_cons, ih _ (Nat.div_lt_self hn hb),
        List.reverse_cons]
      rfl

theorem value_append_singleton (l : List ℕ) (d : ℕ) : value b (l ++ [d]) = value b l * b + d := by
  simp [value, List.foldl_append]

theorem value_reverse (l : List ℕ) : value b l.reverse = Nat.ofDigits b l := by
  induction l with
  | nil => rfl
  | cons d l ih =>
    rw [List.reverse_cons, value_append_singleton, ih, Nat.ofDigits_cons]
    ring

theorem value_digits (b n : ℕ) : value b (digits b n) = n := by
  unfold digits
  split_ifs with h
  · simp [value, h]
  · rw [value_reverse, Nat.ofDigits_digits]

/-- A reader that keeps less of the number than its value, such as a remainder of it. -/
theorem foldl_value {β : Type*} {f : ℕ → β} {g : β → ℕ → β} {l : List ℕ} (v : ℕ)
    (h : ∀ v, ∀ d ∈ l, g (f v) d = f (v * b + d)) :
      l.foldl g (f v) = f (l.foldl (fun v d => v * b + d) v) := by
  induction l generalizing v with
  | nil => rfl
  | cons d l ih =>
    rw [List.foldl_cons, List.foldl_cons, h v d (.head _)]
    exact ih _ fun v e he => h v e (.tail _ he)

theorem lt_of_mem_digits (hb : 1 < b) {d : ℕ} (hd : d ∈ digits b n) : d < b := by
  unfold digits at hd
  split_ifs at hd with h
  · rw [List.mem_singleton.mp hd]
    omega
  · exact Nat.digits_lt_base hb (List.mem_reverse.mp hd)

theorem digits_ne_nil (b n : ℕ) : digits b n ≠ [] := by
  unfold digits
  split_ifs with h
  · exact List.cons_ne_nil _ _
  · exact fun hnil => h (Nat.digits_eq_nil_iff_eq_zero.mp (List.reverse_eq_nil_iff.mp hnil))

/-- No leading zeros, but for the numeral of zero. -/
theorem head_digits_ne_zero (hn : n ≠ 0) : (digits b n).head? ≠ some 0 := by
  unfold digits
  rw [if_neg hn, List.head?_reverse,
    List.getLast?_eq_getLast_of_ne_nil (Nat.digits_ne_nil_iff_ne_zero.mpr hn)]
  intro hzero
  exact Nat.getLast_digit_ne_zero b hn (Option.some.inj hzero)

theorem length_digits_le {k : ℕ} (hb : 1 < b) (hk : 0 < k) (hn : n < b ^ k) :
    (digits b n).length ≤ k := by
  unfold digits
  split_ifs with h
  · exact hk
  · rw [List.length_reverse]
    exact (Nat.digits_length_le_iff hb n).mpr hn

end Numeral
