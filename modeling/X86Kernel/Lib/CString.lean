import Mathlib.Data.List.GetD
import Mathlib.Logic.Function.Basic
import Mathlib.Order.Basic
import X86Kernel.Lib.Slice

/-! Strings that end with a zero in flat memory, and the loops that copy them. -/
namespace CString

/-- Bytes by address. -/
abbrev Memory := ℕ → UInt8

variable {m m' : Memory} {base : ℕ} {text : List UInt8}

/-- The string at `base` is `text`. -/
structure Holds (m : Memory) (base : ℕ) (text : List UInt8) : Prop where
  string : 0 ∉ text
  chars : ∀ k < text.length, m (base + k) = text.getD k 0
  nul : m (base + text.length) = 0

/-- A string is its characters, as the cells of memory hold them, and a zero behind them. -/
theorem Holds.of_slice (hslice : Slice.slice m base text.length = text)
    (hnul : m (base + text.length) = 0) (hstring : 0 ∉ text) : Holds m base text where
  string := hstring
  chars k hk := by
    have hget := congrArg (fun l => l.getD k 0) hslice
    simpa [Slice.slice, hk] using hget
  nul := hnul

theorem Holds.slice_eq (h : Holds m base text) : Slice.slice m base text.length = text := by
  apply List.ext_getElem Slice.length_slice
  intro k _ hk
  rw [← List.getD_eq_getElem _ 0 hk, ← h.chars k hk]
  simp [Slice.slice]

theorem Holds.head {c : UInt8} (h : Holds m base (c :: text)) : m base = c :=
  h.chars 0 (Nat.succ_pos _)

theorem Holds.head_ne_zero {c : UInt8} (h : Holds m base (c :: text)) : m base ≠ 0 := by
  rw [h.head]
  rintro rfl
  exact h.string (.head _)

theorem Holds.tail {c : UInt8} (h : Holds m base (c :: text)) : Holds m (base + 1) text where
  string hmem := h.string (.tail _ hmem)
  chars k hk := by
    rw [Nat.add_right_comm]
    exact h.chars (k + 1) (Nat.succ_lt_succ hk)
  nul := by
    rw [Nat.add_right_comm]
    exact h.nul

theorem Holds.congr (h : Holds m base text)
    (hsame : ∀ k ≤ text.length, m' (base + k) = m (base + k)) :
    Holds m' base text where
  string := h.string
  chars k hk := (hsame k (Nat.le_of_lt hk)).trans (h.chars k hk)
  nul := (hsame _ (Nat.le_refl _)).trans h.nul

theorem holds_nil : Holds m base [] ↔ m base = 0 := by
  constructor
  · exact fun h => h.nul
  · exact fun h => ⟨by simp, by simp, h⟩

theorem Holds.ne_zero (h : Holds m base text) {k : ℕ} (hk : k < text.length) :
    m (base + k) ≠ 0 := by
  rw [h.chars k hk, List.getD_eq_getElem _ _ hk]
  intro hzero
  exact h.string (hzero ▸ List.getElem_mem hk)

/-- The search of `strlen` from a character on. -/
def strlenFrom (m : Memory) (base : ℕ) : ℕ → ℕ → ℕ
  | 0, i => i
  | n + 1, i => if m (base + i) = 0 then i else strlenFrom m base n (i + 1)

theorem Holds.strlenFrom_eq (h : Holds m base text) {n i : ℕ} (hi : i ≤ text.length)
    (hn : text.length < n + i) :
    strlenFrom m base n i = text.length := by
  induction n generalizing i with
  | zero => exact absurd hn (by omega)
  | succ n ih =>
    unfold strlenFrom
    rcases Nat.lt_or_eq_of_le hi with hlt | rfl
    · rw [if_neg (h.ne_zero hlt)]
      exact ih hlt (by omega)
    · rw [if_pos h.nul]

/-- The length of the string at `base`, where it ends within `room` bytes. -/
def strlenIn (m : Memory) (base room : ℕ) : Option ℕ :=
  if strlenFrom m base room 0 < room then some (strlenFrom m base room 0) else none

/-- The loop of `strcpy` within one memory, from a character on. -/
def strcpyFrom (dest src : ℕ) : ℕ → ℕ → Memory → Memory
  | 0, _, m => m
  | n + 1, i, m =>
    if m (src + i) = 0 then Function.update m (dest + i) 0
    else strcpyFrom dest src n (i + 1) (Function.update m (dest + i) (m (src + i)))

/-- Two ranges of bytes have none in common. -/
def Apart (a b n : ℕ) : Prop := a + n ≤ b ∨ b + n ≤ a

/-- A string is copied, and nothing else changes. -/
structure Copied (m : Memory) (dest : ℕ) (text : List UInt8) (m' : Memory) : Prop where
  holds : Holds m' dest text
  other : ∀ a, a < dest ∨ dest + text.length < a → m' a = m a

theorem strcpyFrom_copied {dest src : ℕ} (h : Holds m src text)
    (hapart : Apart dest src (text.length + 1)) {n i : ℕ}
    (hi : i ≤ text.length) (hn : text.length < n + i)
    (hdone : ∀ k < i, m (dest + k) = text.getD k 0) :
    Copied m dest text (strcpyFrom dest src n i m) := by
  induction n generalizing i m with
  | zero => exact absurd hn (by omega)
  | succ n ih =>
    unfold strcpyFrom
    rcases Nat.lt_or_eq_of_le hi with hlt | rfl
    · rw [if_neg (h.ne_zero hlt)]
      have hsrc : Holds (Function.update m (dest + i) (m (src + i))) src text := by
        apply h.congr
        intro k hk
        unfold Apart at hapart
        exact Function.update_of_ne (by omega) _ _
      obtain ⟨hholds, hother⟩ := ih hsrc hlt (by omega) (by
        intro k hk
        by_cases hki : k = i
        · subst hki
          rw [Function.update_self, h.chars k hlt]
        · rw [Function.update_of_ne (by omega), hdone k (by omega)])
      refine ⟨hholds, fun a ha => ?_⟩
      rw [hother a ha, Function.update_of_ne (by omega)]
    · rw [if_pos h.nul]
      refine ⟨⟨h.string, fun k hk => ?_, ?_⟩, fun a ha => Function.update_of_ne (by omega) _ _⟩
      · rw [Function.update_of_ne (by omega), hdone k hk]
      · rw [Function.update_self]

/-- The loop of `strcpy_fixed` from another memory, for the `n` characters from `i` on, and the
NUL. -/
def copyFixedFrom (src : Memory) (base dest : ℕ) : ℕ → ℕ → Memory → Memory
  | 0, i, m => Function.update m (dest + i) 0
  | n + 1, i, m =>
    copyFixedFrom src base dest n (i + 1) (Function.update m (dest + i) (src (base + i)))

theorem copyFixedFrom_copied {src : Memory} {dest : ℕ} (hstring : 0 ∉ text)
    (hchars : ∀ k < text.length, src (base + k) = text.getD k 0) {n i : ℕ}
    (hn : n + i = text.length) (hdone : ∀ k < i, m (dest + k) = text.getD k 0) :
      Copied m dest text (copyFixedFrom src base dest n i m) := by
  induction n generalizing i m with
  | zero =>
    obtain rfl : i = text.length := by omega
    unfold copyFixedFrom
    refine ⟨⟨hstring, fun k hk => ?_, ?_⟩, fun a ha => Function.update_of_ne (by omega) _ _⟩
    · rw [Function.update_of_ne (by omega), hdone k hk]
    · rw [Function.update_self]
  | succ n ih =>
    unfold copyFixedFrom
    obtain ⟨hholds, hother⟩ :=
      ih (i := i + 1) (m := Function.update m (dest + i) (src (base + i))) (by omega) (by
      intro k hk
      by_cases hki : k = i
      · subst hki
        rw [Function.update_self, hchars k (by omega)]
      · rw [Function.update_of_ne (by omega), hdone k (by omega)])
    refine ⟨hholds, fun a ha => ?_⟩
    rw [hother a ha, Function.update_of_ne (by omega)]

end CString
