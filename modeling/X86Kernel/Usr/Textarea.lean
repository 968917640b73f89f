import X86Kernel.Lib.Run
import X86Kernel.Strings.Numbers

/-! The text area of `ui_textarea.c`: its text, its cursor, and the maps between an index and a row
and column. -/
namespace X86Kernel.Usr

open Strings (ch)

/-- What is used of `get_font_info()`. -/
structure FontInfo where
  width : ℤ
  height : ℤ
  padding : ℤ
  pos : 0 < width + padding ∧ 0 < height + padding

/-- A block of memory, and the indexes in it that are written. -/
structure WrittenBlock where
  size : ℤ
  writes : List ℤ

def WrittenBlock.Within (b : WrittenBlock) : Prop := ∀ w ∈ b.writes, 0 ≤ w ∧ w < b.size

/-- A text area and its `textarea_t`, with the index of a character for its address. -/
structure Textarea where
  width : ℤ
  font : FontInfo
  text : ℤ → UInt8
  textbufSize : ℤ
  focused : Bool
  padding : ℤ
  label : Bool
  cursorPos : ℤ

namespace Textarea

/-- The length of the text, as an `int`. -/
def strlen (text : ℤ → UInt8) : ℕ := CString.strlenFrom (fun k : ℕ => text k) 0 (2 ^ 31) 0

def maxLineLen (s : Textarea) : ℤ := s.width.tdiv (s.font.width + s.font.padding)

/-- The line and the position in it behind a character, of those before it. -/
def advance (maxLineLen : ℤ) (c : UInt8) (p : ℤ × ℤ) : ℤ × ℤ :=
  if c = ch '\n' then (p.1 + 1, 0)
  -- wrap around
  else if p.2 = maxLineLen then (p.1 + 1, 1)
  else (p.1, p.2 + 1)

/-- `textarea_get_pos_from_index` -/
def getPosFromIndex (s : Textarea) (index : ℤ) : ℤ × ℤ :=
  (List.range index.toNat).foldl (fun p (i : ℕ) => advance s.maxLineLen (s.text i) p) (0, 0)

/-- The loop of `textarea_get_index_from_pos` over `n` more characters. -/
def indexLoop (s : Textarea) (pos : ℤ × ℤ) : ℕ → ℕ → ℤ × ℤ → ℤ
  | 0, _, _ => -1
  | n + 1, i, p =>
    if p = pos then i else indexLoop s pos n (i + 1) (advance s.maxLineLen (s.text i) p)

/-- `textarea_get_index_from_pos` -/
def getIndexFromPos (s : Textarea) (row col : ℤ) : ℤ :=
  s.indexLoop (row, col) (strlen s.text) 0 (0, 0)

/-- `textarea_get_rows` -/
def getRows (s : Textarea) : ℤ := (s.getPosFromIndex (strlen s.text)).1 + 1

/-- `text[i] = text[i + 1]` for `n` indexes upwards, and the indexes written. -/
def moveDown : ℕ → ℤ → (ℤ → UInt8) → (ℤ → UInt8) × List ℤ
  | 0, _, text => (text, [])
  | n + 1, i, text =>
    let (text, writes) := moveDown n (i + 1) (Function.update text i (text (i + 1)))
    (text, i :: writes)

/-- `text[i + 1] = text[i]` for `n` indexes downwards. -/
def moveUp : ℕ → ℤ → (ℤ → UInt8) → (ℤ → UInt8) × List ℤ
  | 0, _, text => (text, [])
  | n + 1, i, text =>
    let (text, writes) := moveUp n (i - 1) (Function.update text (i + 1) (text i))
    (text, (i + 1) :: writes)

def backspace (s : Textarea) (len : ℤ) : Textarea × List ℤ :=
  if len > 0 ∧ s.cursorPos > 0 then
    let (text, writes) := moveDown (len - (s.cursorPos - 1)).toNat (s.cursorPos - 1) s.text
    ({ s with text := text, cursorPos := s.cursorPos - 1 }, writes)
  else (s, [])

def upArrow (s : Textarea) : Textarea :=
  let (row, col) := s.getPosFromIndex s.cursorPos
  if row = 0 then { s with cursorPos := 0 }
  else
    let row := row - 1
    let index := s.getIndexFromPos row col
    let index := if index = -1 then s.getIndexFromPos (row + 1) 0 - 1 else index
    { s with cursorPos := index }

/-- The index of a row and column, or the end of the row, or that of the text. -/
def nearIndex (s : Textarea) (row col : ℤ) : ℤ :=
  let index := s.getIndexFromPos row col
  if index = -1 then
    let index := s.getIndexFromPos (row + 1) 0
    if index = -1 then strlen s.text else index - 1
  else index

def downArrow (s : Textarea) : Textarea :=
  let (row, col) := s.getPosFromIndex s.cursorPos
  if row = s.getRows then { s with cursorPos := strlen s.text }
  else { s with cursorPos := s.nearIndex (row + 1) col }

def leftArrow (s : Textarea) : Textarea :=
  let cursorPos := s.cursorPos - 1
  { s with cursorPos := if cursorPos < 0 then 0 else cursorPos }

def rightArrow (s : Textarea) (len : ℤ) : Textarea :=
  let cursorPos := s.cursorPos + 1
  { s with cursorPos := if cursorPos > len then len else cursorPos }

def addChar (s : Textarea) (len : ℤ) (c : UInt16) : Textarea × List ℤ :=
  let c := if c = 0x0D then 0x0A else c
  if len < s.textbufSize - 1 then
    let (text, writes) := moveUp (len + 1 - s.cursorPos).toNat len s.text
    ({ s with text := Function.update text s.cursorPos c.toUInt8, cursorPos := s.cursorPos + 1 },
      writes ++ [s.cursorPos])
  else (s, [])

/-- `keypress_textarea`, with the indexes of `text` that it writes. -/
def keypressTextarea (s : Textarea) (c : UInt16) : Textarea × List ℤ :=
  let len := strlen s.text
  if c = 8 then s.backspace len
  else if c = 0x100 then (s.upArrow, [])
  else if c = 0x101 then (s.downArrow, [])
  else if c = 0x102 then (s.leftArrow, [])
  else if c = 0x103 then (s.rightArrow len, [])
  else if c > 0 then s.addChar len c
  else (s, [])

/-- The characters in a row that is drawn, which leaves room for the border. -/
def rowLen (s : Textarea) : ℤ := (s.width - 4).tdiv (s.font.width + s.font.padding)

/-- One character that is drawn: the position behind it in `display_text`, and the indexes
written. -/
def drawChar (maxLineLen : ℤ) (c : UInt8) (linePos : ℤ) : ℤ × List ℤ :=
  if c = ch '\n' then (0, [linePos, 0])
  -- wrap around
  else if linePos = maxLineLen then (1, [0, 1])
  else (linePos + 1, [linePos, linePos + 1])

/-- The loop of `draw_textarea` over `n` more characters. -/
def drawLoop (s : Textarea) (maxLineLen : ℤ) : ℕ → ℕ → ℤ → List ℤ
  | 0, _, _ => []
  | n + 1, i, linePos =>
    let (linePos, writes) := drawChar maxLineLen (s.text i) linePos
    writes ++ drawLoop s maxLineLen n (i + 1) linePos

/-- What `draw_textarea` writes to `display_text`, for which there may be no memory. The text and
the cursor it leaves alone. -/
def drawTextarea (s : Textarea) (memory : Bool) : WrittenBlock where
  size := if memory then s.rowLen + 1 else 0
  writes := 0 :: s.rowLen :: s.drawLoop s.rowLen (strlen s.text) 0 0

/-- `click_textarea` -/
def clickTextarea (s : Textarea) (x y : ℤ) (memory : Bool) : Textarea × List WrittenBlock :=
  if s.label then (s, [])
  else if !s.focused then (s, [s.drawTextarea memory])
  else
    let row := (y - s.padding).tdiv (s.font.height + s.font.padding)
    let col := (x - s.padding).tdiv (s.font.width + s.font.padding)
    let s := { s with cursorPos := s.nearIndex row col }
    (s, [s.drawTextarea memory])

/-- `release_textarea`, and whether there is memory for the event of the cursor, with its three
fields. -/
def releaseTextarea (s : Textarea) (memory eventMemory : Bool) : Textarea × List WrittenBlock :=
  if s.label then (s, [])
  else
    let s := { s with focused := true }
    (s, [s.drawTextarea memory, ⟨if eventMemory then 3 else 0, [0, 1, 2]⟩])

/-- `unfocus_textarea` -/
def unfocusTextarea (s : Textarea) (memory : Bool) : Textarea × List WrittenBlock :=
  let s := { s with focused := false }
  (s, [s.drawTextarea memory])

/-- `strncpy`: the text from an index on, and the indexes written, with the NUL behind the last
character. -/
def strncpyFrom : List UInt8 → ℕ → ℕ → (ℤ → UInt8) → (ℤ → UInt8) × List ℤ
  | c :: src, size + 1, i, text =>
    let (text, writes) := strncpyFrom src size (i + 1) (Function.update text i c)
    (text, (i : ℤ) :: writes)
  | _, _, i, text => (Function.update text i 0, [(i : ℤ)])

/-- `set_textarea_text` -/
def setTextareaText (s : Textarea) (str : List UInt8) : Textarea × List ℤ :=
  let (text, writes) := strncpyFrom str s.textbufSize.toNat 0 s.text
  let len := strlen text
  let text := Function.update text len 0
  ({ s with text := text, cursorPos := strlen text }, writes ++ [(len : ℤ)])

/-- `create_textarea`; neither the text behind its NUL nor `focused` is set. -/
def create (width : ℤ) (font : FontInfo) (text : ℤ → UInt8) (focused : Bool) : Textarea where
  width := width
  font := font
  text := Function.update text 0 0
  textbufSize := 0x1000
  focused := focused
  padding := 2
  label := false
  cursorPos := 0

/-! ### The text -/

/-- The characters of the text. -/
def Chars (text : ℤ → UInt8) (l : List UInt8) : Prop := CString.Holds (fun k : ℕ => text k) 0 l

variable {text : ℤ → UInt8} {l : List UInt8}

theorem chars_iff : Chars text l ↔
    (∀ (k : ℕ) (h : k < l.length), text k = l[k]) ∧ text (l.length : ℕ) = 0 ∧ 0 ∉ l := by
  constructor
  · intro h
    have hnul := h.nul
    rw [Nat.zero_add] at hnul
    refine ⟨fun k hk => ?_, hnul, h.string⟩
    have hchar := h.chars k hk
    rwa [Nat.zero_add, List.getD_eq_getElem _ _ hk] at hchar
  · rintro ⟨hchars, hnul, hne⟩
    refine ⟨hne, fun k hk => ?_, ?_⟩
    · rw [Nat.zero_add, List.getD_eq_getElem _ _ hk]
      exact hchars k hk
    · rw [Nat.zero_add]
      exact hnul

theorem strlen_eq (h : Chars text l) (hlt : l.length < 2 ^ 31) : strlen text = l.length :=
  h.strlenFrom_eq (Nat.zero_le _) (by omega)

theorem moveDown_apply (n : ℕ) (i : ℤ) (text : ℤ → UInt8) (k : ℤ) :
    (moveDown n i text).1 k = if i ≤ k ∧ k < i + n then text (k + 1) else text k := by
  induction n generalizing i text with
  | zero => rw [moveDown, if_neg (by omega)]
  | succ n ih =>
    rw [moveDown]
    dsimp only
    rw [ih, Function.update_apply, Function.update_apply]
    split_ifs <;> first | omega | rfl | (congr 1; omega)

theorem moveDown_writes {n : ℕ} {i w : ℤ} {text : ℤ → UInt8} (hw : w ∈ (moveDown n i text).2) :
    i ≤ w ∧ w < i + n := by
  induction n generalizing i text with
  | zero => cases hw
  | succ n ih =>
    rw [moveDown] at hw
    rcases List.mem_cons.mp hw with rfl | hw
    · omega
    · have hrest := ih hw
      omega

theorem moveUp_apply (n : ℕ) (i : ℤ) (text : ℤ → UInt8) (k : ℤ) :
    (moveUp n i text).1 k = if i + 1 - n < k ∧ k ≤ i + 1 then text (k - 1) else text k := by
  induction n generalizing i text with
  | zero => rw [moveUp, if_neg (by omega)]
  | succ n ih =>
    rw [moveUp]
    dsimp only
    rw [ih, Function.update_apply, Function.update_apply]
    split_ifs <;> first | omega | rfl | (congr 1; omega)

theorem moveUp_writes {n : ℕ} {i w : ℤ} {text : ℤ → UInt8} (hw : w ∈ (moveUp n i text).2) :
    i + 1 - n < w ∧ w ≤ i + 1 := by
  induction n generalizing i text with
  | zero => cases hw
  | succ n ih =>
    rw [moveUp] at hw
    rcases List.mem_cons.mp hw with rfl | hw
    · omega
    · have hrest := ih hw
      omega

/-- A character taken out of the text. -/
theorem moveDown_chars (h : Chars text l) {i : ℕ} (hi : i < l.length) :
    Chars (moveDown (l.length - i) i text).1 (l.eraseIdx i) := by
  obtain ⟨hchars, hnul, hne⟩ := chars_iff.mp h
  have hlength : (l.eraseIdx i).length = l.length - 1 := List.length_eraseIdx_of_lt hi
  apply chars_iff.mpr
  refine ⟨?_, ?_, fun hmem => hne (List.mem_of_mem_eraseIdx hmem)⟩
  · intro k hk
    rw [hlength] at hk
    rw [moveDown_apply, List.getElem_eraseIdx]
    split_ifs with h1 h2 h2
    · omega
    · exact hchars (k + 1) (by omega)
    · exact hchars k (by omega)
    · omega
  · rw [moveDown_apply, hlength, if_pos (by omega), ← hnul]
    congr 1
    omega

/-- A character put into the text. -/
theorem moveUp_chars (h : Chars text l) {i : ℕ} (hi : i ≤ l.length) {c : UInt8} (hc : c ≠ 0) :
    Chars (Function.update (moveUp (l.length + 1 - i) l.length text).1 i c) (l.insertIdx i c) := by
  obtain ⟨hchars, hnul, hne⟩ := chars_iff.mp h
  have hlength : (l.insertIdx i c).length = l.length + 1 := List.length_insertIdx_of_le_length hi c
  apply chars_iff.mpr
  refine ⟨?_, ?_, ?_⟩
  · intro k hk
    rw [hlength] at hk
    rcases Nat.lt_trichotomy k i with hlt | rfl | hgt
    · rw [List.getElem_insertIdx_of_lt hlt, Function.update_of_ne (by omega), moveUp_apply,
        if_neg (by omega)]
      exact hchars k (by omega)
    · rw [List.getElem_insertIdx_self, Function.update_self]
    · rw [List.getElem_insertIdx_of_gt hgt, Function.update_of_ne (by omega), moveUp_apply,
        if_pos (by omega)]
      rw [← hchars (k - 1) (by omega)]
      congr 1
      omega
  · rw [hlength, Function.update_of_ne (by omega), moveUp_apply, if_pos (by omega), ← hnul]
    congr 1
    omega
  · intro hmem
    rcases List.eq_or_mem_of_mem_insertIdx hmem with hzero | hmem
    · exact hc hzero.symm
    · exact hne hmem

/-- The NUL is written behind the text so far. -/
theorem update_nul_chars (hchars : ∀ (k : ℕ) (h : k < l.length), text k = l[k]) (hne : 0 ∉ l) :
    Chars (Function.update text (l.length : ℕ) 0) l := by
  apply chars_iff.mpr
  refine ⟨?_, Function.update_self .., hne⟩
  intro k hk
  rw [Function.update_of_ne (by omega)]
  exact hchars k hk

theorem strncpyFrom_nil (size i : ℕ) (text : ℤ → UInt8) :
    strncpyFrom [] size i text = (Function.update text i 0, [(i : ℤ)]) := by
  cases size <;> rfl

theorem strncpyFrom_chars (src : List UInt8) (size : ℕ)
    (hchars : ∀ (k : ℕ) (h : k < l.length), text k = l[k]) (hne : 0 ∉ l) (hsrc : 0 ∉ src) :
    Chars (strncpyFrom src size l.length text).1 (l ++ src.take size) := by
  induction src generalizing size l text with
  | nil =>
    rw [strncpyFrom_nil, List.take_nil, List.append_nil]
    exact update_nul_chars hchars hne
  | cons c src ih =>
    cases size with
    | zero =>
      rw [List.take_zero, List.append_nil]
      exact update_nul_chars hchars hne
    | succ size =>
      have hlength : (l ++ [c]).length = l.length + 1 := by
        rw [List.length_append, List.length_singleton]
      have hchars' : ∀ (k : ℕ) (h : k < (l ++ [c]).length),
          Function.update text (l.length : ℕ) c k = (l ++ [c])[k] := by
        intro k hk
        rcases Nat.lt_or_ge k l.length with hlt | hge
        · rw [Function.update_of_ne (by omega), List.getElem_append_left hlt]
          exact hchars k hlt
        · obtain rfl : k = l.length := by omega
          rw [Function.update_self, List.getElem_concat_length rfl]
      have hne' : 0 ∉ l ++ [c] := by
        intro hmem
        rcases List.mem_append.mp hmem with hmem | hmem
        · exact hne hmem
        · exact hsrc (List.mem_singleton.mp hmem ▸ .head _)
      have hrest := ih size hchars' hne' fun hmem => hsrc (.tail _ hmem)
      rw [hlength, List.append_assoc] at hrest
      exact hrest

theorem strncpyFrom_writes {src : List UInt8} {size i : ℕ} {w : ℤ}
    (hw : w ∈ (strncpyFrom src size i text).2) :
    i ≤ w ∧ w ≤ i + (src.take size).length := by
  induction src generalizing size i text with
  | nil =>
    rw [strncpyFrom_nil] at hw
    obtain rfl := List.mem_singleton.mp hw
    omega
  | cons c src ih =>
    cases size with
    | zero =>
      obtain rfl := List.mem_singleton.mp hw
      omega
    | succ size =>
      rw [strncpyFrom] at hw
      rw [List.take_succ_cons, List.length_cons]
      rcases List.mem_cons.mp hw with rfl | hw
      · omega
      · have hrest := ih hw
        omega

end Textarea

end X86Kernel.Usr
