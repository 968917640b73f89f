import Mathlib
import X86Kernel.Gui.Terminal

/-! Over any keys a terminal is a line editor with a history of ten lines. -/
namespace X86Kernel.Gui

open CString (Memory Holds Copied Apart strlenFrom strcpyFrom copyFixedFrom)

variable {w : TermWindow} {e : Editor}

namespace TermWindow

/-- The entry `i` of the history is `text`. -/
structure Entry (m : Memory) (i : ℕ) (text : List UInt8) : Prop where
  holds : Holds m (entryAddr i) text
  fits : text.length < textBufferLength

theorem entryAddr_succ (i : ℕ) : entryAddr (i + 1) = entryAddr i + textBufferLength :=
  Nat.succ_mul i textBufferLength

theorem entryAddr_mono {i j : ℕ} (h : i < j) : entryAddr i + textBufferLength ≤ entryAddr j := by
  rw [← entryAddr_succ]
  exact Nat.mul_le_mul_right textBufferLength h

/-- An entry that a change leaves alone. -/
theorem Entry.congr {m m' : Memory} {i : ℕ} {text : List UInt8} (h : Entry m i text)
    (hsame : ∀ a, entryAddr i ≤ a → a < entryAddr i + textBufferLength → m' a = m a) :
      Entry m' i text where
  holds := h.holds.congr fun k hk => hsame _ (Nat.le_add_right _ _) (by have := h.fits; omega)
  fits := h.fits

theorem Entry.strlen_eq {m : Memory} {i : ℕ} {text : List UInt8} (h : Entry m i text) :
    strlen m (entryAddr i) = text.length := by
  have hfits := h.fits
  unfold textBufferLength at hfits
  exact h.holds.strlenFrom_eq (Nat.zero_le _) (by omega)

theorem Entry.strcpy {m : Memory} {i j : ℕ} {text : List UInt8} (h : Entry m i text) (hij : i ≠ j) :
    Copied m (entryAddr j) text (TermWindow.strcpy m (entryAddr j) (entryAddr i)) := by
  have hfits := h.fits
  apply CString.strcpyFrom_copied h.holds
  · unfold Apart
    rcases Nat.lt_or_gt_of_ne hij with hlt | hlt
    · right
      have hmono := entryAddr_mono hlt
      omega
    · left
      have hmono := entryAddr_mono hlt
      omega
  · exact Nat.zero_le _
  · unfold textBufferLength at hfits
    omega
  · intro k hk
    exact absurd hk (Nat.not_lt_zero k)

/-- Every entry moves up by one; the first and what lies behind them stay. -/
structure Shifted (n : ℕ) (m m' : Memory) (history : ℕ → List UInt8) : Prop where
  moved : ∀ i < n, Entry m' (i + 1) (history i)
  first : ∀ a < textBufferLength, m' a = m a
  behind : ∀ a, entryAddr (n + 1) ≤ a → m' a = m a

theorem shiftHistory_shifted (history : ℕ → List UInt8) (n : ℕ) {m : Memory}
    (h : ∀ i < n, Entry m i (history i)) :
    Shifted n m (shiftHistory n m) history := by
  induction n generalizing m with
  | zero => exact ⟨fun i hi => absurd hi (Nat.not_lt_zero i), fun _ _ => rfl, fun _ _ => rfl⟩
  | succ n ih =>
    have hlast := h n (Nat.lt_add_one n)
    have hfits := hlast.fits
    have hcopied := hlast.strcpy (Nat.ne_of_lt (Nat.lt_add_one n))
    have hrest : ∀ a, a < entryAddr (n + 1) ∨ entryAddr (n + 1) + textBufferLength ≤ a →
        strcpy m (entryAddr (n + 1)) (entryAddr n) a = m a := by
      intro a ha
      exact hcopied.other a (by omega)
    unfold shiftHistory
    generalize strcpy m (entryAddr (n + 1)) (entryAddr n) = m₁ at hcopied hrest
    obtain ⟨hmoved, hfirst, hbehind⟩ := ih (m := m₁) (by
      intro i hi
      apply (h i (Nat.lt_add_right 1 hi)).congr
      intro a _ ha
      have hmono := entryAddr_mono (Nat.lt_add_right 1 hi)
      exact hrest a (by omega))
    constructor
    · intro i hi
      rcases Nat.lt_succ_iff_lt_or_eq.mp hi with hlt | rfl
      · exact hmoved i hlt
      · exact Entry.congr ⟨hcopied.holds, hfits⟩ fun a ha _ => hbehind a ha
    · intro a ha
      have hmono := entryAddr_mono (show 0 < n + 1 by omega)
      rw [hfirst a ha]
      exact hrest a (by omega)
    · intro a ha
      rw [entryAddr_succ] at ha
      rw [hbehind a (by omega)]
      exact hrest a (by omega)

end TermWindow

open TermWindow

/-- The window shows what the editor has, and nothing outside of its buffers has changed. -/
structure Shows (text history : Memory) (w : TermWindow) (e : Editor) : Prop where
  string : 0 ∉ e.line
  chars : ∀ k < e.line.length, w.textBuffer k = e.line.getD k 0
  index : w.textIndex = e.line.length
  fits : e.line.length < textBufferLength
  entries : ∀ i < cmdHistoryLength, Entry w.cmdHistory i (e.history i)
  pos : w.cmdHistoryPos = e.pos
  posBounds : -1 ≤ e.pos ∧ e.pos < cmdHistoryLength
  outside : ∀ a, textBufferLength ≤ a → w.textBuffer a = text a
  outsideHistory : ∀ a, cmdHistoryLength * textBufferLength ≤ a → w.cmdHistory a = history a

variable {text history : Memory}

theorem Shows.submitted_eq (h : Shows text history w e) : w.submitted = e.line := by
  apply List.ext_getElem
  · unfold submitted
    rw [List.length_map, List.length_range, h.index]
  · intro k hk' hk
    unfold submitted at hk' ⊢
    rw [List.getElem_map, List.getElem_range, h.chars k hk, List.getD_eq_getElem _ _ hk]

theorem Shows.addChar (h : Shows text history w e) {key : UInt16} (hkey : key.toUInt8 ≠ 0)
    (hroom : e.line.length < textBufferLength - 1) :
    Shows text history (w.addChar key) { e with line := e.line ++ [key.toUInt8] } := by
  unfold TermWindow.addChar
  rw [h.index, if_pos hroom]
  constructor
  · intro hmem
    rcases List.mem_append.mp hmem with hmem | hmem
    · exact h.string hmem
    · exact hkey (List.mem_singleton.mp hmem).symm
  · intro k hk
    dsimp only at hk ⊢
    rw [List.length_append, List.length_singleton] at hk
    rw [Function.update_of_ne (by omega)]
    by_cases hlast : k = e.line.length
    · subst hlast
      simp
    · rw [Function.update_of_ne hlast, List.getD_append _ _ _ _ (by omega)]
      exact h.chars k (by omega)
  · simp
  · dsimp only
    rw [List.length_append, List.length_singleton]
    omega
  · exact h.entries
  · exact h.pos
  · exact h.posBounds
  · intro a ha
    dsimp only
    rw [Function.update_of_ne (by omega), Function.update_of_ne (by omega)]
    exact h.outside a ha
  · exact h.outsideHistory

theorem Shows.backspace (h : Shows text history w e) :
    Shows text history w.backspace { e with line := e.line.dropLast } := by
  unfold TermWindow.backspace
  rw [h.index]
  split_ifs with hpos
  · constructor
    · exact fun hmem => h.string (List.mem_of_mem_dropLast hmem)
    · intro k hk
      dsimp only at hk ⊢
      rw [List.length_dropLast] at hk
      rw [Function.update_of_ne (by omega), h.chars k (by omega),
        List.getD_eq_getElem _ _ (show k < e.line.length by omega),
        List.getD_eq_getElem _ _ (by rw [List.length_dropLast]; omega), List.getElem_dropLast]
    · dsimp only
      rw [List.length_dropLast]
    · have hfits := h.fits
      dsimp only
      rw [List.length_dropLast]
      omega
    · exact h.entries
    · exact h.pos
    · exact h.posBounds
    · intro a ha
      have hfits := h.fits
      dsimp only
      rw [Function.update_of_ne (by omega)]
      exact h.outside a ha
    · exact h.outsideHistory
  · have hnil : e.line = [] := List.eq_nil_of_length_eq_zero (by omega)
    rw [hnil]
    have hsame : ({ e with line := ([] : List UInt8).dropLast } : Editor) = e := by
      rw [List.dropLast_nil, ← hnil]
    rw [hsame]
    exact h

theorem Shows.cleared (h : Shows text history w e) (buffer : Memory) (pos : ℤ)
    (hpos : -1 ≤ pos ∧ pos < cmdHistoryLength)
    (hbuffer : ∀ a, textBufferLength ≤ a → buffer a = w.textBuffer a) :
    Shows text history { w with textBuffer := buffer, textIndex := 0, cmdHistoryPos := pos }
      { e with line := [], pos := pos } := by
  constructor
  · exact List.not_mem_nil
  · exact fun k hk => absurd hk (Nat.not_lt_zero k)
  · rfl
  · exact Nat.zero_lt_of_lt h.fits
  · exact h.entries
  · rfl
  · exact hpos
  · exact fun a ha => (hbuffer a ha).trans (h.outside a ha)
  · exact h.outsideHistory

theorem Shows.showEntry (h : Shows text history w e) {pos : ℤ}
    (hpos : 0 ≤ pos ∧ pos < cmdHistoryLength) :
    Shows text history (w.showEntry pos) (e.showEntry pos) := by
  have hentry := h.entries pos.toNat (by omega)
  have hfits := hentry.fits
  have hcopied : Copied w.textBuffer 0 (e.history pos.toNat)
      (copyFixedFrom w.cmdHistory (entryAddr pos.toNat) 0
        (e.history pos.toNat).length 0 w.textBuffer) :=
    CString.copyFixedFrom_copied hentry.holds.string hentry.holds.chars rfl fun k hk =>
      absurd hk (Nat.not_lt_zero k)
  unfold TermWindow.showEntry
  rw [hentry.strlen_eq]
  constructor
  · exact hentry.holds.string
  · intro k hk
    have hchars := hcopied.holds.chars k hk
    rwa [Nat.zero_add] at hchars
  · rfl
  · exact hfits
  · exact h.entries
  · rfl
  · exact ⟨by change -1 ≤ pos; omega, hpos.2⟩
  · intro a ha
    rw [← h.outside a ha]
    exact hcopied.other a (by omega)
  · exact h.outsideHistory

theorem Shows.store (h : Shows text history w e) : Shows text history w.store e.store := by
  have hfits := h.fits
  obtain ⟨hmoved, hfirst, hbehind⟩ :=
    shiftHistory_shifted e.history (cmdHistoryLength - 1) fun i hi =>
      h.entries i (by omega)
  have hbase : entryAddr 0 = 0 := Nat.zero_mul _
  have hcopied : Copied (shiftHistory (cmdHistoryLength - 1) w.cmdHistory) (entryAddr 0) e.line
      (copyFixedFrom w.textBuffer 0 (entryAddr 0) e.line.length 0
        (shiftHistory (cmdHistoryLength - 1) w.cmdHistory)) := by
    apply CString.copyFixedFrom_copied h.string _ rfl fun k hk => absurd hk (Nat.not_lt_zero k)
    intro k hk
    rw [Nat.zero_add]
    exact h.chars k hk
  unfold TermWindow.store
  rw [h.index]
  dsimp only
  generalize shiftHistory (cmdHistoryLength - 1) w.cmdHistory = shifted at *
  generalize copyFixedFrom w.textBuffer 0 (entryAddr 0) e.line.length 0 shifted = stored at *
  have hstored : Function.update stored (entryAddr 0 + e.line.length) 0 = stored := by
    rw [← hcopied.holds.nul]
    exact Function.update_eq_self _ _
  rw [hstored]
  constructor
  · exact h.string
  · exact h.chars
  · rfl
  · exact hfits
  · intro i hi
    dsimp only
    unfold Editor.store
    dsimp only
    split_ifs with hzero
    · subst hzero
      exact ⟨hcopied.holds, hfits⟩
    · obtain ⟨j, rfl⟩ := Nat.exists_eq_succ_of_ne_zero hzero
      apply (hmoved j (by omega)).congr
      intro a ha _
      have hmono := entryAddr_mono (show 0 < j + 1 by omega)
      exact hcopied.other a (by omega)
  · rfl
  · exact ⟨le_rfl, show (-1 : ℤ) < cmdHistoryLength by decide⟩
  · exact h.outside
  · intro a ha
    dsimp only
    have hend : entryAddr (cmdHistoryLength - 1 + 1) = cmdHistoryLength * textBufferLength := rfl
    rw [← h.outsideHistory a ha, ← hbehind a (by rw [hend]; exact ha)]
    unfold cmdHistoryLength at ha
    exact hcopied.other a (by omega)

theorem toUInt8_of_termChar {key : UInt16} (h : termChar key = true) : key.toUInt8 ≠ 0 := by
  intro hzero
  have hmod : key.toNat % 256 = 0 := congrArg UInt8.toNat hzero
  unfold termChar at h
  simp [UInt16.le_iff_toNat_le, ← UInt16.toNat_inj] at h
  omega

/-- An empty line, at the same entry of the history. -/
theorem Shows.emptied (h : Shows text history w e) (buffer : Memory)
    (hbuffer : ∀ a, textBufferLength ≤ a → buffer a = w.textBuffer a) :
    Shows text history { w with textBuffer := buffer, textIndex := 0 } { e with line := [] } := by
  have hcleared := h.cleared buffer e.pos h.posBounds hbuffer
  have hsame :
        ({ w with textBuffer := buffer, textIndex := 0, cmdHistoryPos := e.pos } : TermWindow) =
      { w with textBuffer := buffer, textIndex := 0 } := by rw [← h.pos]
  rw [hsame] at hcleared
  exact hcleared

/-- A line is handed on as the editor hands it on, where there is memory for the copy. -/
theorem Shows.termReturn (h : Shows text history w e) {receiver : Receiver}
    (hmemory : receiver.HasMemory) :
    Shows text history (w.termReturn receiver).1
      (if receiver.clears then { e.store with line := [] } else e.store) ∧
      (w.termReturn receiver).2 = receiver.handed e.line := by
  have hstore := h.store
  have hclear : Shows text history w.store.clearLine { e.store with line := [] } :=
    hstore.emptied _ fun a ha =>
      Function.update_of_ne (by unfold textBufferLength at ha; omega) _ _
  have hsubmitted : w.store.submitted = e.line := hstore.submitted_eq
  unfold TermWindow.termReturn
  dsimp only
  rw [hsubmitted]
  cases receiver with
  | reader waiting memory =>
    refine ⟨hclear, ?_⟩
    cases waiting with
    | false => rfl
    | true =>
      obtain rfl : memory = true := hmemory rfl
      rfl
  | override task queued memory =>
    cases task with
    | false => exact ⟨hstore, rfl⟩
    | true =>
      obtain rfl : memory = true := hmemory rfl
      refine ⟨hclear, ?_⟩
      cases queued <;> rfl
  | nobody => exact ⟨hclear, rfl⟩

theorem Shows.press (h : Shows text history w e) (key : UInt16) {receiver : Receiver}
    (hmemory : receiver.HasMemory) :
    Shows text history (w.keypress key receiver).1 (e.press key receiver).1 ∧
      (w.keypress key receiver).2 = (e.press key receiver).2 := by
  obtain ⟨hlow, hhigh⟩ := h.posBounds
  unfold TermWindow.keypress Editor.press
  by_cases hback : key = 8
  · rw [if_pos hback, if_pos hback]
    exact ⟨h.backspace, rfl⟩
  rw [if_neg hback, if_neg hback]
  by_cases hreturn : key = 0x0D
  · rw [if_pos hreturn, if_pos hreturn]
    exact h.termReturn hmemory
  rw [if_neg hreturn, if_neg hreturn]
  by_cases hup : key = 0x100
  · rw [if_pos hup, if_pos hup]
    refine ⟨?_, rfl⟩
    have hpos : (if w.cmdHistoryPos + 1 = cmdHistoryLength then (cmdHistoryLength : ℤ) - 1
          else w.cmdHistoryPos + 1) =
        min (e.pos + 1) (cmdHistoryLength - 1) := by
      rw [h.pos]
      split_ifs <;> omega
    unfold TermWindow.upArrow
    dsimp only
    rw [hpos]
    exact h.showEntry (by unfold cmdHistoryLength at *; omega)
  rw [if_neg hup, if_neg hup]
  by_cases hdown : key = 0x101
  · rw [if_pos hdown, if_pos hdown]
    unfold TermWindow.downArrow
    rw [h.pos]
    dsimp only
    by_cases hpos : e.pos ≤ 0
    · rw [if_pos hpos, if_pos (by omega)]
      refine ⟨h.cleared _ (-1) ⟨le_rfl, by omega⟩ fun a ha => ?_, rfl⟩
      exact Function.update_of_ne (by unfold textBufferLength at ha; omega) _ _
    · rw [if_neg hpos, if_neg (by omega)]
      exact ⟨h.showEntry ⟨by omega, by omega⟩, rfl⟩
  rw [if_neg hdown, if_neg hdown]
  by_cases hchar : termChar key = true
  · rw [if_pos hchar]
    by_cases hroom : e.line.length < textBufferLength - 1
    · rw [if_pos ⟨hchar, hroom⟩]
      exact ⟨h.addChar (toUInt8_of_termChar hchar) hroom, rfl⟩
    · rw [if_neg fun hboth => hroom hboth.2]
      unfold TermWindow.addChar
      rw [h.index, if_neg hroom]
      exact ⟨h, rfl⟩
  · rw [if_neg hchar, if_neg fun hboth => hchar hboth.1]
    exact ⟨h, rfl⟩

theorem Shows.exec (h : Shows text history w e) {op : TermOp} (hmemory : op.HasMemory) :
    Shows text history (w.exec op).1 (e.exec op).1 ∧ (w.exec op).2 = (e.exec op).2 := by
  cases op with
  | key key receiver => exact h.press key hmemory
  | clear =>
    exact ⟨h.emptied w.textBuffer fun _ _ => rfl, rfl⟩

end X86Kernel.Gui
