import Mathlib.Data.List.Basic

/-! The lines of a text, and those that are left from a position on. -/
namespace Lines

variable {α : Type*} [DecidableEq α] (sep : α) (text : List α)

/-- The line that begins at a position. -/
def lineAt (pos : ℕ) : List α := (text.drop pos).takeWhile (· ≠ sep)

/-- The lines from a position on. There is a last one, which may be empty, up to the end of the text
and none behind. -/
def linesFrom (pos : ℕ) : List (List α) := if pos ≤ text.length then (text.drop pos).splitOn sep
  else []

theorem linesFrom_of_lt {pos : ℕ} (h : text.length < pos) : linesFrom sep text pos = [] :=
  if_neg (by omega)

/-- The first line, and the others. -/
theorem splitOn_eq : text.splitOn sep = text.takeWhile (· ≠ sep) ::
    linesFrom sep text ((text.takeWhile (· ≠ sep)).length + 1) := by
  induction text with
  | nil => rw [List.splitOn_nil, List.takeWhile_nil, linesFrom_of_lt sep [] (by simp)]
  | cons x text ih =>
    rw [List.splitOn_cons_eq_if_modifyHead]
    by_cases hx : x = sep
    · subst hx
      rw [if_pos (by simp), List.takeWhile_cons_of_neg (by simp), linesFrom, if_pos (by simp)]
      simp
    · rw [if_neg (by simpa using hx), ih, List.takeWhile_cons_of_pos (by simpa using hx),
        List.modifyHead_cons]
      congr 1
      unfold linesFrom
      by_cases hlen : (text.takeWhile (· ≠ sep)).length + 1 ≤ text.length
      · rw [if_pos hlen, if_pos (by simpa using hlen)]
        rfl
      · rw [if_neg hlen, if_neg (by simpa using hlen)]

theorem linesFrom_add (k pos : ℕ) :
    linesFrom sep (text.drop k) pos = if k ≤ text.length then linesFrom sep text (k + pos)
    else linesFrom sep [] pos := by
  unfold linesFrom
  by_cases hk : k ≤ text.length
  · rw [if_pos hk, List.length_drop, List.drop_drop]
    by_cases hpos : pos ≤ text.length - k
    · rw [if_pos hpos, if_pos (by omega)]
    · rw [if_neg hpos, if_neg (by omega)]
  · rw [if_neg hk, List.drop_of_length_le (by omega)]

/-- The lines from a position on are the one there, and those from behind it on. -/
theorem linesFrom_eq {pos : ℕ} (h : pos ≤ text.length) :
    linesFrom sep text pos = lineAt sep text pos :: linesFrom sep text
      (pos + (lineAt sep text pos).length + 1) := by
  have hadd := linesFrom_add sep text pos ((lineAt sep text pos).length + 1)
  rw [if_pos h] at hadd
  rw [linesFrom, if_pos h, splitOn_eq, ← lineAt, hadd, Nat.add_assoc]

/-- A position that has lines is in the text, or at its end. -/
theorem le_of_linesFrom_cons {pos : ℕ} {l : List α} {ls : List (List α)}
    (h : linesFrom sep text pos = l :: ls) :
    pos ≤ text.length := by
  by_contra hlt
  rw [linesFrom_of_lt sep text (by omega)] at h
  exact List.cons_ne_nil _ _ h.symm

theorem linesFrom_cons_iff {pos : ℕ} {l : List α} {ls : List (List α)}
    (h : linesFrom sep text pos = l :: ls) :
    l = lineAt sep text pos ∧ ls = linesFrom sep text (pos + l.length + 1) := by
  rw [linesFrom_eq sep text (le_of_linesFrom_cons sep text h)] at h
  obtain ⟨rfl, hls⟩ := List.cons.inj h
  exact ⟨rfl, hls.symm⟩

end Lines
