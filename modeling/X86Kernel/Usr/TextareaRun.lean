import X86Kernel.Usr.Textarea
import Mathlib.Data.List.TakeWhile

/-! The cursor of a text area over whole runs of key presses, clicks and new texts. -/
namespace X86Kernel.Usr

open Strings (ch)

namespace Textarea

variable {s : Textarea}

/-! ### Rows and columns -/

theorem getPosFromIndex_zero (s : Textarea) : s.getPosFromIndex (0 : ℕ) = (0, 0) := rfl

theorem getPosFromIndex_succ (s : Textarea) (k : ℕ) :
    s.getPosFromIndex (k + 1 : ℕ) = advance s.maxLineLen (s.text k) (s.getPosFromIndex k) := by
  unfold getPosFromIndex
  rw [Int.toNat_natCast, Int.toNat_natCast, List.range_succ, List.foldl_append]
  rfl

/-- The three ways on by one character. -/
theorem advance_cases (maxLineLen : ℤ) (c : UInt8) (p : ℤ × ℤ) :
    (c = ch '\n' ∧ advance maxLineLen c p = (p.1 + 1, 0)) ∨
    (c ≠ ch '\n' ∧ p.2 = maxLineLen ∧ advance maxLineLen c p = (p.1 + 1, 1)) ∨
    (c ≠ ch '\n' ∧ p.2 ≠ maxLineLen ∧ advance maxLineLen c p = (p.1, p.2 + 1)) := by
  unfold advance
  by_cases hc : c = ch '\n'
  · left
    exact ⟨hc, if_pos hc⟩
  · right
    by_cases hp : p.2 = maxLineLen
    · left
      exact ⟨hc, hp, by rw [if_neg hc, if_pos hp]⟩
    · right
      exact ⟨hc, hp, by rw [if_neg hc, if_neg hp]⟩

theorem pos_bounds (hwide : 1 ≤ s.maxLineLen) (k : ℕ) : 0 ≤ (s.getPosFromIndex k).1 ∧
    0 ≤ (s.getPosFromIndex k).2 ∧ (s.getPosFromIndex k).2 ≤ s.maxLineLen := by
  induction k with
  | zero =>
    rw [getPosFromIndex_zero]
    dsimp only
    omega
  | succ k ih =>
    rw [getPosFromIndex_succ]
    rcases advance_cases s.maxLineLen (s.text k) (s.getPosFromIndex k)
      with ⟨-, hstep⟩ | ⟨-, -, hstep⟩ | ⟨-, hne, hstep⟩
    all_goals
      rw [hstep]
      dsimp only
      omega

/-- A column that a row has reached, the first one perhaps aside, is somewhere in it. -/
theorem exists_column (j : ℕ) {row m c : ℤ} (hj : s.getPosFromIndex j = (row, m))
    (hc : 1 ≤ c ∧ c ≤ m) :
    ∃ i ≤ j, s.getPosFromIndex i = (row, c) := by
  induction j generalizing m with
  | zero =>
    rw [getPosFromIndex_zero] at hj
    obtain ⟨-, rfl⟩ := Prod.mk.inj hj
    omega
  | succ j ih =>
    by_cases hlast : c = m
    · exact ⟨j + 1, le_rfl, hlast ▸ hj⟩
    · rw [getPosFromIndex_succ] at hj
      rcases advance_cases s.maxLineLen (s.text j) (s.getPosFromIndex j)
        with ⟨-, hstep⟩ | ⟨-, -, hstep⟩ | ⟨-, -, hstep⟩
      all_goals
        rw [hstep] at hj
        obtain ⟨hrow, hm⟩ := Prod.mk.inj hj
      · omega
      · omega
      · obtain ⟨i, hi, hpos⟩ := ih (m := m - 1) (Prod.ext hrow (by dsimp only; omega)) (by omega)
        exact ⟨i, by omega, hpos⟩

/-- Where a row begins: behind a newline, or where the row before it is full. -/
theorem exists_row_start (p : ℕ) {row col : ℤ} (hp : s.getPosFromIndex p = (row, col))
    (hrow : row ≠ 0) :
    ∃ q < p, (s.text q = ch '\n' ∧ s.getPosFromIndex (q + 1 : ℕ) = (row, 0)) ∨
      (1 ≤ col ∧ s.getPosFromIndex q = (row - 1, s.maxLineLen)) := by
  induction p generalizing col with
  | zero =>
    rw [getPosFromIndex_zero] at hp
    exact absurd (Prod.mk.inj hp).1.symm hrow
  | succ p ih =>
    have hp' := hp
    rw [getPosFromIndex_succ] at hp
    rcases advance_cases s.maxLineLen (s.text p) (s.getPosFromIndex p)
      with ⟨hc, hstep⟩ | ⟨-, hfull, hstep⟩ | ⟨-, -, hstep⟩
    all_goals
      rw [hstep] at hp
      obtain ⟨hline, hpos⟩ := Prod.mk.inj hp
    · refine ⟨p, Nat.lt_succ_self p, .inl ⟨hc, ?_⟩⟩
      rw [hp', ← hpos]
    · refine ⟨p, Nat.lt_succ_self p, .inr ⟨by omega, ?_⟩⟩
      exact Prod.ext (by dsimp only; omega) hfull
    · have hpos' : s.getPosFromIndex p = (row, col - 1) := Prod.ext hline (by dsimp only; omega)
      obtain ⟨q, hq, hstart⟩ := ih hpos'
      refine ⟨q, by omega, ?_⟩
      rcases hstart with hnewline | ⟨hcol, hwrap⟩
      · exact .inl hnewline
      · exact .inr ⟨by omega, hwrap⟩

/-- A line that fits into its row. -/
theorem line_pos {start : ℕ} {row : ℤ} (hstart : s.getPosFromIndex start = (row, 0)) (j : ℕ)
    (hline : ∀ k, start ≤ k → k < start + j → s.text k ≠ ch '\n') (hfit : (j : ℤ) ≤ s.maxLineLen) :
    s.getPosFromIndex (start + j : ℕ) = (row, (j : ℤ)) := by
  induction j with
  | zero => exact hstart
  | succ j ih =>
    have hprev := ih (fun k h1 h2 => hline k h1 (by omega)) (by omega)
    rw [← Nat.add_assoc, getPosFromIndex_succ, hprev]
    unfold advance
    rw [if_neg (hline (start + j) (by omega) (by omega)), if_neg (by dsimp only; omega)]
    push_cast
    rfl

theorem indexLoop_spec (pos : ℤ × ℤ) (n i : ℕ) :
    (∃ k : ℕ, i ≤ k ∧ k < i + n ∧ s.indexLoop pos n i (s.getPosFromIndex i) = k ∧
      s.getPosFromIndex k = pos) ∨
    (s.indexLoop pos n i (s.getPosFromIndex i) = -1 ∧ ∀ k, i ≤ k → k < i + n →
      s.getPosFromIndex k ≠ pos) := by
  induction n generalizing i with
  | zero =>
    right
    exact ⟨rfl, fun k h1 h2 => by omega⟩
  | succ n ih =>
    rw [indexLoop]
    by_cases hpos : s.getPosFromIndex i = pos
    · left
      exact ⟨i, le_rfl, by omega, if_pos hpos, hpos⟩
    · rw [if_neg hpos, ← getPosFromIndex_succ]
      rcases ih (i + 1) with ⟨k, h1, h2, heq, hk⟩ | ⟨heq, hnone⟩
      · left
        exact ⟨k, by omega, by omega, heq, hk⟩
      · right
        refine ⟨heq, ?_⟩
        intro k h1 h2
        rcases Nat.lt_or_eq_of_le h1 with hlt | rfl
        · exact hnone k hlt (by omega)
        · exact hpos

/-- An index with the row and column, or -1 where none has them. -/
theorem getIndexFromPos_spec (s : Textarea) (row col : ℤ) :
    (∃ k < strlen s.text, s.getIndexFromPos row col = k ∧ s.getPosFromIndex k = (row, col)) ∨
    (s.getIndexFromPos row col = -1 ∧ ∀ k < strlen s.text, s.getPosFromIndex k ≠ (row, col)) := by
  rcases indexLoop_spec (s := s) (row, col) (strlen s.text) 0
    with ⟨k, -, hk, heq, hpos⟩ | ⟨heq, hnone⟩
  · left
    exact ⟨k, by omega, heq, hpos⟩
  · right
    exact ⟨heq, fun k hk => hnone k (Nat.zero_le k) (by omega)⟩

/-! ### The invariant -/

/-- A text that is in its buffer, and a cursor in the text. -/
structure Ok (s : Textarea) (l : List UInt8) : Prop where
  chars : Chars s.text l
  fits : (l.length : ℤ) < s.textbufSize
  cursor : 0 ≤ s.cursorPos ∧ s.cursorPos ≤ l.length
  size : s.textbufSize = 0x1000
  wide : 1 ≤ s.maxLineLen

variable {l : List UInt8}

theorem Ok.strlen_eq (h : Ok s l) : strlen s.text = l.length := by
  have hfits := h.fits
  rw [h.size] at hfits
  exact Textarea.strlen_eq h.chars (by omega)

theorem Ok.with_cursor (h : Ok s l) {cursorPos : ℤ}
    (hcursor : 0 ≤ cursorPos ∧ cursorPos ≤ l.length) :
    Ok { s with cursorPos := cursorPos } l := ⟨h.chars, h.fits, hcursor, h.size, h.wide⟩

/-- The last line of a text, from its end on, where the text ends with a newline. -/
def lastLine (l : List UInt8) : List UInt8 := l.dropLast.reverse.takeWhile (· ≠ ch '\n')

/-- The text ends with a newline behind a line that does not fit into one row. -/
def EndsBehindWrapped (s : Textarea) (l : List UInt8) : Prop :=
  l.getLast? = some (ch '\n') ∧ s.maxLineLen < (lastLine l).length

theorem Ok.nearIndex (h : Ok s l) {row col : ℤ} (hrow : row + 1 ≠ 0 ∨ l = []) :
    0 ≤ s.nearIndex row col ∧ s.nearIndex row col ≤ l.length := by
  have hlen := h.strlen_eq
  unfold Textarea.nearIndex
  dsimp only
  rcases s.getIndexFromPos_spec row col with ⟨k, hk, heq, -⟩ | ⟨heq, -⟩
  · rw [heq, if_neg (by omega)]
    omega
  · rw [if_pos heq]
    rcases s.getIndexFromPos_spec (row + 1) 0 with ⟨k, hk, heq', hpos⟩ | ⟨heq', -⟩
    · have hk0 : k ≠ 0 := by
        rintro rfl
        rw [getPosFromIndex_zero] at hpos
        have hzero := (Prod.mk.inj hpos).1
        rcases hrow with hne | rfl
        · exact hne hzero.symm
        · rw [hlen] at hk
          exact absurd hk (Nat.lt_irrefl 0)
      rw [heq', if_neg (by omega)]
      omega
    · rw [if_pos heq', hlen]
      omega

theorem Ok.downArrow (h : Ok s l) : Ok s.downArrow l := by
  have hlen := h.strlen_eq
  have hbounds := pos_bounds h.wide s.cursorPos.toNat
  rw [Int.toNat_of_nonneg h.cursor.1] at hbounds
  unfold Textarea.downArrow
  dsimp only
  split_ifs
  · apply h.with_cursor
    omega
  · apply h.with_cursor
    exact h.nearIndex (.inl (by omega))

theorem Ok.leftArrow (h : Ok s l) : Ok s.leftArrow l := by
  have hcursor := h.cursor
  apply h.with_cursor
  split_ifs <;> omega

theorem Ok.rightArrow (h : Ok s l) : Ok (s.rightArrow l.length) l := by
  have hcursor := h.cursor
  apply h.with_cursor
  split_ifs <;> omega

/-- A text that ends with a newline, up to its last line. -/
theorem exists_lines (hlast : l.getLast? = some (ch '\n')) :
    ∃ before, l = before ++ ((lastLine l).reverse ++ [ch '\n']) ∧ (∀ c ∈ lastLine l, c ≠ ch '\n') ∧
      (before = [] ∨ ∃ b, before = b ++ [ch '\n']) := by
  have hsplit := List.takeWhile_append_dropWhile (p := (· ≠ ch '\n')) (l := l.dropLast.reverse)
  refine ⟨(l.dropLast.reverse.dropWhile (· ≠ ch '\n')).reverse, ?_, ?_, ?_⟩
  · rw [← List.append_assoc, lastLine, ← List.reverse_append, hsplit, List.reverse_reverse]
    exact (List.dropLast_append_getLast? _ hlast).symm
  · intro c hc
    simpa using List.mem_takeWhile_imp hc
  · cases hrest : l.dropLast.reverse.dropWhile (· ≠ ch '\n') with
    | nil => exact .inl rfl
    | cons c rest =>
      right
      have hhead : (l.dropLast.reverse.dropWhile (· ≠ ch '\n')).head? = some c := by
        rw [hrest, List.head?_cons]
      have hc := List.head?_dropWhile_not (· ≠ ch '\n') l.dropLast.reverse
      rw [hhead] at hc
      have hnewline : c = ch '\n' := by simpa using hc
      exact ⟨rest.reverse, by rw [List.reverse_cons, hnewline]⟩

/-- Where the last line begins and ends, when it fits into its row. -/
theorem Ok.lastLine_spec (h : Ok s l) (hlast : l.getLast? = some (ch '\n'))
    (hfit : ((lastLine l).length : ℤ) ≤ s.maxLineLen) :
    ∃ start < l.length, ∃ row, s.getPosFromIndex start = (row, 0) ∧
      s.getPosFromIndex (l.length - 1 : ℕ) = (row, ((lastLine l).length : ℤ)) := by
  obtain ⟨hchars, -, -⟩ := chars_iff.mp h.chars
  obtain ⟨before, hl, hline, hbefore⟩ := exists_lines hlast
  have hlength : l.length = before.length + (lastLine l).length + 1 := by
    have hcount := congrArg List.length hl
    rw [List.length_append, List.length_append, List.length_reverse,
      List.length_singleton] at hcount
    omega
  have hstart : s.getPosFromIndex before.length = ((s.getPosFromIndex before.length).1, 0) := by
    rcases hbefore with rfl | ⟨b, rfl⟩
    · rfl
    · rw [List.length_append, List.length_singleton, getPosFromIndex_succ]
      have hnewline : s.text b.length = ch '\n' := by
        have hlt : b.length < l.length := by
          rw [hlength, List.length_append, List.length_singleton]
          omega
        have hget : l[b.length]? = some (ch '\n') := by
          rw [hl]
          simp
        rw [List.getElem?_eq_getElem hlt] at hget
        rw [hchars b.length hlt]
        exact Option.some.inj hget
      unfold advance
      rw [if_pos hnewline]
  refine ⟨before.length, by omega, _, hstart, ?_⟩
  rw [show l.length - 1 = before.length + (lastLine l).length by omega]
  apply line_pos hstart _ _ hfit
  intro k h1 h2
  rw [hchars k (by omega)]
  apply hline
  have hget : l[k]? = (lastLine l).reverse[k - before.length]? := by
    conv_lhs => rw [hl]
    rw [List.getElem?_append_right h1,
      List.getElem?_append_left (by rw [List.length_reverse]; omega)]
  rw [List.getElem?_eq_getElem (by omega)] at hget
  exact List.mem_reverse.mp (List.mem_of_getElem? hget.symm)

/-- The cursor moves up into the row before, or to its end; from the end of a text that ends behind
a row of its own, there may be neither. -/
theorem Ok.upArrow (h : Ok s l) (hup : s.cursorPos ≠ l.length ∨ ¬EndsBehindWrapped s l) :
    Ok s.upArrow l := by
  have hlen := h.strlen_eq
  obtain ⟨hchars, -, -⟩ := chars_iff.mp h.chars
  obtain ⟨p, hp⟩ := Int.eq_ofNat_of_zero_le h.cursor.1
  have hple : p ≤ l.length := by
    have hcursor := h.cursor.2
    omega
  unfold Textarea.upArrow
  rw [hp]
  obtain ⟨row, col, hpos⟩ : ∃ row col, s.getPosFromIndex p = (row, col) := ⟨_, _, rfl⟩
  rw [hpos]
  dsimp only
  split_ifs with hrow hmissing
  · apply h.with_cursor
    omega
  · -- no such column in the row before
    apply h.with_cursor
    rw [sub_add_cancel]
    have hnone : ∀ k < l.length, s.getPosFromIndex k ≠ (row - 1, col) := by
      rcases s.getIndexFromPos_spec (row - 1) col with ⟨k, -, heq, -⟩ | ⟨-, hnone⟩
      · omega
      · rwa [hlen] at hnone
    obtain ⟨q, hq, hstart⟩ := exists_row_start p hpos hrow
    rcases hstart with ⟨hnewline, hbegin⟩ | ⟨hcol, hwrap⟩
    · rcases s.getIndexFromPos_spec row 0 with ⟨k, hk, heq, hk'⟩ | ⟨-, hnone'⟩
      · have hk0 : k ≠ 0 := by
          rintro rfl
          rw [getPosFromIndex_zero] at hk'
          exact hrow (Prod.mk.inj hk').1.symm
        rw [heq]
        omega
      · -- the row of the cursor begins at the end of the text
        exfalso
        have hend : q + 1 = l.length := by
          by_contra hne
          exact hnone' (q + 1) (by omega) hbegin
        have hpq : p = q + 1 := by omega
        have hlast : l.getLast? = some (ch '\n') := by
          rw [List.getLast?_eq_getElem?, show l.length - 1 = q by omega,
            List.getElem?_eq_getElem (by omega),
            ← hchars q (by omega), hnewline]
        have hfit : ((lastLine l).length : ℤ) ≤ s.maxLineLen := by
          rcases hup with hne | hshort
          · omega
          · by_contra hlong
            exact hshort ⟨hlast, by omega⟩
        obtain ⟨start, hlt, row', hzero, hq'⟩ := h.lastLine_spec hlast hfit
        rw [show l.length - 1 = q by omega] at hq'
        rw [getPosFromIndex_succ, hq', advance, if_pos hnewline] at hbegin
        have hrow' : row' + 1 = row := (Prod.mk.inj hbegin).1
        subst hpq
        rw [getPosFromIndex_succ, hq', advance, if_pos hnewline] at hpos
        have hcol : (0 : ℤ) = col := (Prod.mk.inj hpos).2
        apply hnone start hlt
        rw [hzero, ← hcol]
        exact Prod.ext (by dsimp only; omega) rfl
    · exfalso
      have hbounds := pos_bounds h.wide p
      rw [hpos] at hbounds
      obtain ⟨i, hi, hcolumn⟩ := exists_column q hwrap ⟨hcol, hbounds.2.2⟩
      exact hnone i (by omega) hcolumn
  · apply h.with_cursor
    rcases s.getIndexFromPos_spec (row - 1) col with ⟨k, hk, heq, -⟩ | ⟨heq, -⟩
    · rw [heq]
      omega
    · exact absurd heq hmissing

/-! ### The calls -/

/-- The calls, and `draw` for a redraw, which also follows each key. -/
inductive TextCall where
  | keypress (c : UInt16)
  | draw (memory : Bool)
  | click (x y : ℤ) (memory : Bool)
  | setText (str : List UInt8)
  | release (memory eventMemory : Bool)
  | unfocus (memory : Bool)

/-- A call, with what it writes to the text buffer and to the blocks it allocates. -/
def exec (s : Textarea) : TextCall → Textarea × List WrittenBlock
  | .keypress c =>
    let (s', writes) := s.keypressTextarea c
    (s', [⟨s.textbufSize, writes⟩])
  | .draw memory => (s, [s.drawTextarea memory])
  | .click x y memory => s.clickTextarea x y memory
  | .setText str =>
    let (s', writes) := s.setTextareaText str
    (s', [⟨s.textbufSize, writes⟩])
  | .release memory eventMemory => s.releaseTextarea memory eventMemory
  | .unfocus memory => s.unfocusTextarea memory

/-- Keys are characters and arrows, and a text is a string. -/
def Legal : TextCall → Prop
  | .keypress c => c ≤ 0x103
  | .setText str => 0 ∉ str
  | _ => True

instance : DecidablePred Legal
  | .keypress c => inferInstanceAs (Decidable (c ≤ 0x103))
  | .setText str => inferInstanceAs (Decidable (0 ∉ str))
  | .draw _ => isTrue trivial
  | .click .. => isTrue trivial
  | .release .. => isTrue trivial
  | .unfocus _ => isTrue trivial

/-- The text as a list. -/
def contents (s : Textarea) : List UInt8 := (List.range (strlen s.text)).map fun k : ℕ => s.text k

/-- There is memory for a row, and the row has room for a character if there is one to draw. -/
def Drawable (s : Textarea) (memory : Bool) : Prop :=
  memory = true ∧ (1 ≤ s.rowLen ∨ s.rowLen = 0 ∧ ∀ c ∈ s.contents, c = ch '\n')

/-- The calls that keep the cursor in the text, the text in its buffer, and what is drawn in its
row. -/
def Keeps (s : Textarea) : TextCall → Prop
  | .keypress c => c = 0x100 → s.cursorPos ≠ s.contents.length ∨ ¬EndsBehindWrapped s s.contents
  | .draw memory => s.Drawable memory
  | .click _ y memory => s.label = true ∨ s.Drawable memory ∧ (s.focused = false ∨
      (y - s.padding).tdiv (s.font.height + s.font.padding) ≠ -1 ∨ s.contents = [])
  | .setText str => str.length < s.textbufSize
  | .release memory eventMemory => s.label = true ∨ s.Drawable memory ∧ eventMemory = true
  | .unfocus memory => s.Drawable memory

instance (s : Textarea) (l : List UInt8) : Decidable (EndsBehindWrapped s l) :=
  inferInstanceAs (Decidable (_ ∧ _))

instance (s : Textarea) (memory : Bool) : Decidable (s.Drawable memory) :=
  inferInstanceAs (Decidable (_ ∧ _))

instance (s : Textarea) : DecidablePred s.Keeps
  | .keypress c =>
    inferInstanceAs
      (Decidable (c = 0x100 → s.cursorPos ≠ s.contents.length ∨ ¬EndsBehindWrapped s s.contents))
  | .draw memory => inferInstanceAs (Decidable (s.Drawable memory))
  | .click _ y memory =>
    inferInstanceAs (Decidable (s.label = true ∨ s.Drawable memory ∧ (s.focused = false ∨
      (y - s.padding).tdiv (s.font.height + s.font.padding) ≠ -1 ∨ s.contents = [])))
  | .setText str => inferInstanceAs (Decidable (str.length < s.textbufSize))
  | .release memory eventMemory =>
    inferInstanceAs (Decidable (s.label = true ∨ s.Drawable memory ∧ eventMemory = true))
  | .unfocus memory => inferInstanceAs (Decidable (s.Drawable memory))

/-! ### What is drawn -/

theorem drawLoop_within (s : Textarea) {m : ℤ} (hm : 1 ≤ m) (n i : ℕ) {linePos : ℤ}
    (h : 0 ≤ linePos ∧ linePos ≤ m) :
    ∀ w ∈ s.drawLoop m n i linePos, 0 ≤ w ∧ w < m + 1 := by
  induction n generalizing i linePos with
  | zero => exact fun w hw => absurd hw List.not_mem_nil
  | succ n ih =>
    intro w hw
    have hchar : (0 ≤ (drawChar m (s.text i) linePos).1 ∧ (drawChar m (s.text i) linePos).1 ≤ m) ∧
        ∀ w ∈ (drawChar m (s.text i) linePos).2, 0 ≤ w ∧ w < m + 1 := by
      unfold drawChar
      split_ifs <;> simp only [List.mem_cons, List.not_mem_nil, or_false, forall_eq_or_imp,
        forall_eq] <;> omega
    rw [drawLoop] at hw
    rcases List.mem_append.mp hw with hw | hw
    · exact hchar.2 w hw
    · exact ih (i + 1) hchar.1 w hw

/-- A row of no characters has room for newlines only. -/
theorem drawLoop_zero (s : Textarea) (n i : ℕ) : (∀ w ∈ s.drawLoop 0 n i 0, 0 ≤ w ∧ w < 1) ↔
    ∀ k : ℕ, i ≤ k → k < i + n → s.text k = ch '\n' := by
  induction n generalizing i with
  | zero =>
    exact ⟨fun _ k hle hlt => absurd hlt (by omega), fun _ w hw => absurd hw List.not_mem_nil⟩
  | succ n ih =>
    rw [drawLoop]
    dsimp only
    by_cases hnew : s.text i = ch '\n'
    · have hchar : drawChar 0 (s.text i) 0 = (0, [0, 0]) := if_pos hnew
      rw [hchar]
      constructor
      · intro h k hle hlt
        rcases Nat.eq_or_lt_of_le hle with rfl | hlt'
        · exact hnew
        · exact (ih (i + 1)).mp (fun w hw => h w (List.mem_append_right _ hw)) k hlt' (by omega)
      · intro h w hw
        rcases List.mem_append.mp hw with hw | hw
        · simp only [List.mem_cons, List.not_mem_nil, or_false, or_self] at hw
          omega
        · exact (ih (i + 1)).mpr (fun k hle hlt => h k (by omega) (by omega)) w hw
    · have hchar : drawChar 0 (s.text i) 0 = (1, [0, 1]) := by
        unfold drawChar
        rw [if_neg hnew, if_pos rfl]
      rw [hchar]
      constructor
      · intro h
        exact absurd (h 1 (by simp)).2 (lt_irrefl 1)
      · exact fun h => absurd (h i le_rfl (by omega)) hnew

/-- What is drawn stays in the row just when there is one, with room for what it has to take. -/
theorem drawTextarea_within_iff (s : Textarea) (memory : Bool) :
    (s.drawTextarea memory).Within ↔ s.Drawable memory := by
  unfold drawTextarea WrittenBlock.Within Drawable
  dsimp only
  cases memory with
  | false =>
    constructor
    · intro h
      exact absurd (h 0 List.mem_cons_self).2 (lt_irrefl 0)
    · exact fun h => absurd h.1 Bool.false_ne_true
  | true =>
    rw [if_pos rfl]
    rcases lt_trichotomy s.rowLen 0 with hneg | hzero | hpos
    · constructor
      · intro h
        have hfirst := (h 0 List.mem_cons_self).2
        omega
      · rintro ⟨-, hroom | hroom⟩ <;> omega
    · have hnewlines : (∀ k : ℕ, 0 ≤ k → k < 0 + strlen s.text → s.text k = ch '\n') ↔
          ∀ c ∈ s.contents, c = ch '\n' := by
        unfold contents
        simp
      rw [hzero, ← hnewlines, ← drawLoop_zero]
      constructor
      · intro h
        exact ⟨rfl,
          .inr ⟨rfl, fun w hw => h w (List.mem_cons_of_mem _ (List.mem_cons_of_mem _ hw))⟩⟩
      · rintro ⟨-, hroom | ⟨-, hall⟩⟩ w hw
        · omega
        · simp only [List.mem_cons] at hw
          rcases hw with rfl | rfl | hw
          · omega
          · omega
          · exact hall w hw
    · constructor
      · exact fun _ => ⟨rfl, .inl hpos⟩
      · intro _ w hw
        simp only [List.mem_cons] at hw
        rcases hw with rfl | rfl | hw
        · omega
        · omega
        · exact s.drawLoop_within hpos _ _ ⟨le_rfl, hpos.le⟩ w hw

theorem Ok.contents_eq (h : Ok s l) : s.contents = l := by
  obtain ⟨hchars, -, -⟩ := chars_iff.mp h.chars
  unfold contents
  rw [h.strlen_eq]
  apply List.ext_getElem (by simp)
  intro k _ hk
  simp only [List.getElem_map, List.getElem_range]
  exact hchars k hk

/-- What a call keeps: the invariant, and that it writes only in the buffer. -/
def Done (r : Textarea × List ℤ) : Prop := (∃ l, Ok r.1 l) ∧ ∀ w ∈ r.2, 0 ≤ w ∧ w < 0x1000

theorem Ok.done (h : Ok s l) : Done (s, []) := ⟨⟨l, h⟩, fun _ hw => absurd hw List.not_mem_nil⟩

theorem Ok.backspace (h : Ok s l) : Done (s.backspace l.length) := by
  have hfits := h.fits
  have hsize := h.size
  have hcursor := h.cursor
  unfold Textarea.backspace
  split_ifs with hpos
  · obtain ⟨i, hi⟩ := Int.eq_ofNat_of_zero_le (show 0 ≤ s.cursorPos - 1 by omega)
    have hturns : ((l.length : ℤ) - (s.cursorPos - 1)).toNat = l.length - i := by omega
    have hlt : i < l.length := by omega
    have hlength : (l.eraseIdx i).length = l.length - 1 := List.length_eraseIdx_of_lt hlt
    dsimp only
    rw [hturns, hi]
    constructor
    · refine ⟨l.eraseIdx i, moveDown_chars h.chars hlt, ?_, ?_, hsize, h.wide⟩
      · dsimp only
        omega
      · dsimp only
        omega
    · intro w hw
      have hrange := moveDown_writes hw
      omega
  · exact h.done

theorem Ok.addChar (h : Ok s l) {c : UInt16} (hc : c.toUInt8 ≠ 0) :
    Done (s.addChar l.length c) := by
  have hfits := h.fits
  have hsize := h.size
  have hcursor := h.cursor
  have hchar : (if c = 0x0D then 0x0A else c).toUInt8 ≠ 0 := by
    split_ifs
    · decide
    · exact hc
  unfold Textarea.addChar
  dsimp only
  generalize (if c = 0x0D then 0x0A else c) = c' at hchar ⊢
  split_ifs with hroom
  · obtain ⟨i, hi⟩ := Int.eq_ofNat_of_zero_le hcursor.1
    have hturns : ((l.length : ℤ) + 1 - s.cursorPos).toNat = l.length + 1 - i := by omega
    have hle : i ≤ l.length := by omega
    have hlength := List.length_insertIdx_of_le_length hle c'.toUInt8
    rw [hturns, hi]
    constructor
    · refine ⟨_, moveUp_chars h.chars hle hchar, ?_, ?_, hsize, h.wide⟩
      · rw [hlength]
        dsimp only
        omega
      · rw [hlength]
        dsimp only
        omega
    · intro w hw
      rcases List.mem_append.mp hw with hw | hw
      · have hrange := moveUp_writes hw
        omega
      · obtain rfl := List.mem_singleton.mp hw
        omega
  · exact h.done

/-- A key that is no arrow and not 0 is a character. -/
theorem toUInt8_ne_zero {c : UInt16} (hc : c ≤ 0x103) (hpos : c > 0)
    (h : c ≠ 0x100 ∧ c ≠ 0x101 ∧ c ≠ 0x102 ∧ c ≠ 0x103) :
    c.toUInt8 ≠ 0 := by
  have hle : c.toNat ≤ 0x103 := hc
  have hlt : 0 < c.toNat := hpos
  have hne : ∀ v : UInt16, c ≠ v → c.toNat ≠ v.toNat := fun v hv heq => hv (UInt16.toNat_inj.mp heq)
  have h0 : c.toNat ≠ 0x100 := hne _ h.1
  have h1 : c.toNat ≠ 0x101 := hne _ h.2.1
  have h2 : c.toNat ≠ 0x102 := hne _ h.2.2.1
  have h3 : c.toNat ≠ 0x103 := hne _ h.2.2.2
  intro hzero
  have hmod : c.toNat % 256 = 0 := congrArg UInt8.toNat hzero
  omega

theorem Ok.setText (h : Ok s l) {str : List UInt8} (hstr : 0 ∉ str)
    (hfit : str.length < s.textbufSize) :
    Done (s.setTextareaText str) := by
  have hsize := h.size
  have hlt : str.length < s.textbufSize.toNat := by omega
  have hchars : Chars (strncpyFrom str s.textbufSize.toNat 0 s.text).1 str := by
    have hnil : ∀ (k : ℕ) (h : k < ([] : List UInt8).length), s.text k = [][k] :=
      fun _ hk => absurd hk (Nat.not_lt_zero _)
    have hcopy := strncpyFrom_chars str s.textbufSize.toNat hnil List.not_mem_nil hstr
    rwa [List.nil_append, List.take_of_length_le hlt.le] at hcopy
  have hlen : strlen (strncpyFrom str s.textbufSize.toNat 0 s.text).1 = str.length :=
    Textarea.strlen_eq hchars (by omega)
  obtain ⟨hget, hnul, hne⟩ := chars_iff.mp hchars
  have hagain := update_nul_chars hget hne
  unfold Textarea.setTextareaText
  dsimp only
  rw [hlen]
  constructor
  · refine ⟨str, hagain, hfit, ?_, hsize, h.wide⟩
    dsimp only
    rw [Textarea.strlen_eq hagain (by omega)]
    omega
  · intro w hw
    rcases List.mem_append.mp hw with hw | hw
    · have hrange := strncpyFrom_writes hw
      rw [List.take_of_length_le hlt.le] at hrange
      omega
    · obtain rfl := List.mem_singleton.mp hw
      omega

/-- What a call keeps: the invariant, and that it writes only in its blocks. -/
def Kept (r : Textarea × List WrittenBlock) : Prop := (∃ l, Ok r.1 l) ∧ ∀ b ∈ r.2, b.Within

theorem Done.kept {r : Textarea × List ℤ} (h : Done r) {size : ℤ} (hsize : size = 0x1000) :
    Kept (r.1, [⟨size, r.2⟩]) := by
  refine ⟨h.1, fun b hb => ?_⟩
  rw [List.mem_singleton.mp hb, hsize]
  exact h.2

/-- A call that draws. -/
theorem Ok.kept_drawn (h : Ok s l) {memory : Bool} (hdraw : s.Drawable memory) :
    Kept (s, [s.drawTextarea memory]) := by
  refine ⟨⟨l, h⟩, fun b hb => ?_⟩
  rw [List.mem_singleton.mp hb]
  exact (s.drawTextarea_within_iff memory).mpr hdraw

theorem Ok.keypress (h : Ok s l) {c : UInt16} (hlegal : Legal (.keypress c))
    (hkeeps : Keeps s (.keypress c)) :
    Done (s.keypressTextarea c) := by
  have hlen := h.strlen_eq
  unfold Keeps at hkeeps
  rw [h.contents_eq] at hkeeps
  unfold keypressTextarea
  rw [hlen]
  dsimp only
  split_ifs with h1 h2 h3 h4 h5 h6
  · exact h.backspace
  · exact (h.upArrow (hkeeps h2)).done
  · exact h.downArrow.done
  · exact h.leftArrow.done
  · exact h.rightArrow.done
  · exact h.addChar (toUInt8_ne_zero hlegal h6 ⟨h2, h3, h4, h5⟩)
  · exact h.done

theorem Ok.click (h : Ok s l) {x y : ℤ} {memory : Bool} (hkeeps : Keeps s (.click x y memory)) :
    Kept (s.clickTextarea x y memory) := by
  unfold Keeps at hkeeps
  unfold clickTextarea
  dsimp only
  split_ifs with hlabel hfocused
  · exact ⟨⟨l, h⟩, fun b hb => absurd hb List.not_mem_nil⟩
  · obtain ⟨hdraw, -⟩ := hkeeps.resolve_left hlabel
    exact h.kept_drawn hdraw
  · obtain ⟨hdraw, hrow⟩ := hkeeps.resolve_left hlabel
    refine Ok.kept_drawn (h.with_cursor (h.nearIndex ?_)) hdraw
    rcases hrow with hno | hrow | hnil
    · simp [hno] at hfocused
    · left
      omega
    · right
      rw [← h.contents_eq]
      exact hnil

theorem Ok.release (h : Ok s l) {memory eventMemory : Bool}
    (hkeeps : Keeps s (.release memory eventMemory)) :
    Kept (s.releaseTextarea memory eventMemory) := by
  unfold Keeps at hkeeps
  unfold releaseTextarea
  by_cases hlabel : s.label = true
  · rw [if_pos hlabel]
    exact ⟨⟨l, h⟩, fun b hb => absurd hb List.not_mem_nil⟩
  · rw [if_neg hlabel]
    obtain ⟨hdraw, rfl⟩ := hkeeps.resolve_left hlabel
    have hok : Ok { s with focused := true } l := ⟨h.chars, h.fits, h.cursor, h.size, h.wide⟩
    obtain ⟨hkept, hwithin⟩ := hok.kept_drawn hdraw
    refine ⟨hkept, fun b hb => ?_⟩
    rcases List.mem_cons.mp hb with rfl | hb
    · exact hwithin _ List.mem_cons_self
    · rw [List.mem_singleton.mp hb]
      unfold WrittenBlock.Within
      decide

/-- One call. -/
theorem Ok.exec (h : Ok s l) {call : TextCall} (hlegal : Legal call) (hkeeps : Keeps s call) :
    Kept (s.exec call) := by
  cases call with
  | keypress c => exact (h.keypress hlegal hkeeps).kept h.size
  | draw memory => exact h.kept_drawn hkeeps
  | click x y memory => exact h.click hkeeps
  | setText str => exact (h.setText hlegal hkeeps).kept h.size
  | release memory eventMemory => exact h.release hkeeps
  | unfocus memory =>
    have hok : Ok { s with focused := false } l := ⟨h.chars, h.fits, h.cursor, h.size, h.wide⟩
    exact hok.kept_drawn hkeeps

/-! ### Whole runs -/

/-- A new text area, whose owner may then set its padding and make a label of it. -/
def start (width : ℤ) (font : FontInfo) (text : ℤ → UInt8) (focused : Bool) (padding : ℤ)
    (label : Bool) : Textarea :=
  { create width font text focused with padding := padding, label := label }

theorem start_ok {width : ℤ} {font : FontInfo} (hwidth : font.width + font.padding ≤ width)
    (text : ℤ → UInt8) (focused : Bool) (padding : ℤ) (label : Bool) :
    Ok (start width font text focused padding label) [] := by
  have hpos := font.pos.1
  constructor
  · apply chars_iff.mpr
    refine ⟨fun k hk => absurd hk (Nat.not_lt_zero k), ?_, List.not_mem_nil⟩
    exact Function.update_self (0 : ℤ) 0 text
  · change ((0 : ℕ) : ℤ) < 0x1000
    decide
  · exact ⟨le_rfl, le_rfl⟩
  · rfl
  · change 1 ≤ width.tdiv (font.width + font.padding)
    rw [Int.tdiv_eq_ediv_of_nonneg (by omega)]
    apply Int.le_ediv_of_mul_le hpos
    omega

/-- The cursor is in the text, the text is in its buffer, and nothing was written outside of a
block. -/
structure CursorValid (s : Textarea) (calls : List TextCall) : Prop where
  cursor : 0 ≤ (Machine.run exec s calls).1.cursorPos ∧
    (Machine.run exec s calls).1.cursorPos ≤ strlen (Machine.run exec s calls).1.text
  text : strlen (Machine.run exec s calls).1.text < (Machine.run exec s calls).1.textbufSize
  size : (Machine.run exec s calls).1.textbufSize = 0x1000
  writes : ∀ e ∈ (Machine.run exec s calls).2, ∀ b ∈ e.2, b.Within

/-- Over every run whose calls keep it so. -/
theorem run_cursorValid {width : ℤ} {font : FontInfo} (hwidth : font.width + font.padding ≤ width)
    (text : ℤ → UInt8) (focused : Bool) (padding : ℤ) (label : Bool) {calls : List TextCall}
    (hcalls : Machine.Along exec (fun s call => Legal call ∧ Keeps s call)
      (start width font text focused padding label)
      calls) : CursorValid (start width font text focused padding label) calls := by
  have hrun := Machine.run_history_along
    (P := fun history s => (∃ l, Ok s l) ∧ ∀ e ∈ history, ∀ b ∈ e.2, b.Within)
    ⟨⟨[], start_ok hwidth text focused padding label⟩, fun _ he => absurd he List.not_mem_nil⟩
    (fun history s call h hcall => by
      obtain ⟨⟨l, hok⟩, hwrites⟩ := h
      obtain ⟨hok', hnew⟩ := hok.exec hcall.1 hcall.2
      refine ⟨hok', ?_⟩
      intro e he
      rcases List.mem_append.mp he with hold | hlast
      · exact hwrites e hold
      · obtain rfl := List.mem_singleton.mp hlast
        exact hnew) hcalls
  obtain ⟨⟨l, hok⟩, hwrites⟩ := hrun
  have hlen := hok.strlen_eq
  constructor
  · rw [hlen]
    exact hok.cursor
  · rw [hlen]
    exact hok.fits
  · exact hok.size
  · exact hwrites

/-- A font of six columns. -/
def sixColumns : FontInfo := ⟨5, 7, 1, by decide⟩

/-- Upwards from behind `"ab\n"`, where a row is two characters wide, and a click. -/
theorem run_cursorValid_two : CursorValid (start 12 sixColumns (fun _ => 1) true 2 false)
    [.keypress 97, .keypress 98, .keypress 0x0D, .draw true, .keypress 0x100, .click 8 3 true] :=
  run_cursorValid (by decide) (fun _ => 1) true 2 false (by decide +kernel)

/-- Where a row is one character wide, the cursor leaves the text upwards from behind `"ab\n"`. -/
theorem not_cursorValid :
    ¬∀ (width : ℤ) (font : FontInfo) (text : ℤ → UInt8) (focused : Bool) (padding : ℤ)
    (label : Bool) (calls : List TextCall), font.width + font.padding ≤ width →
    (∀ call ∈ calls, Legal call) →
    CursorValid (start width font text focused padding label) calls := by
  intro hall
  have hvalid := hall 6 sixColumns (fun _ => 1) true 2 false
    [.keypress 97, .keypress 98, .keypress 0x0D, .keypress 0x100] (by decide) (by decide)
  exact absurd hvalid.cursor.1 (by decide +kernel)

end Textarea

end X86Kernel.Usr
