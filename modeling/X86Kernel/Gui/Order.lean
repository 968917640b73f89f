import X86Kernel.Gui.Window
import X86Kernel.Lib.FrontList
import X86Kernel.Lib.Run

/-! The order of the windows, from `windowmgr.c`: adding, selecting, minimising and closing them. -/
namespace X86Kernel.Gui

/-- `W_CHILDCOUNT` -/
abbrev wChildCount : ℕ := 10

/-- What the order depends on of a `gui_window_t`. Windows are known by their index in
`gui_windows`. -/
structure WindowState where
  active : Bool
  minimised : Bool
  closed : Bool
  /-- The first `child_count` entries of `children`, all of them once `child_count` is
  overwritten. -/
  children : List (Option ℕ)
  /-- The window whose pointer is in `child_count`, which lies where `children[W_CHILDCOUNT]` would
  be. -/
  overwritten : Option ℕ
  parent : Option ℕ

/-- Where a window is in the tree of windows. -/
def WindowState.links (w : WindowState) : List (Option ℕ) × Option ℕ × Option ℕ :=
  (w.children, w.overwritten, w.parent)

/-- A call of `setSelectedWindowIndex`, with the render order before and after it. -/
structure Selection where
  index : Option ℕ
  before : ℕ → Option ℕ
  after : ℕ → Option ℕ

/-- The windows that a selection does not select keep their order. -/
def Selection.Kept (sel : Selection) : Prop :=
  (FrontList.elements maxWindows sel.after).filter (fun w => some w ≠ sel.index)
    = (FrontList.elements maxWindows sel.before).filter (fun w => some w ≠ sel.index)

/-- The window manager. `selectedWindow` and `gui_selected_window` are always assigned together. -/
structure WindowManager where
  windows : ℕ → WindowState
  windowCount : ℕ
  renderOrder : ℕ → Option ℕ
  selectedWindow : Option ℕ
  /-- How often something outside of the window manager decided what a call does. -/
  asked : ℕ
  /-- The selections so far, for the specification. -/
  selections : List Selection

/-- What the rest of the kernel does with a call. -/
structure Answer where
  /-- There is memory for the framebuffer of a new window. -/
  allocated : Bool
  /-- The window stays open: its task cannot be ended yet, or is asked to close it itself. -/
  stays : Bool
  /-- The window of the task that ends with a dialog which is closed. -/
  dismisses : Option ℕ
  /-- `windowmgr_add` gave the window, and the window `0` is never given. -/
  ne_zero : dismisses ≠ some 0

/-- Where a call does not return. -/
inductive Stop where
  /-- Calls of `window_close` nested too deep. -/
  | depth
  /-- An index that is no index of `children` any more: a pointer, or what lies behind
  `child_count`. -/
  | outside

/-- A child is added. The eleventh is written over `child_count`, and the one after that to wherever
its pointer is an index of. -/
def WindowState.addChild (p : WindowState) (window : ℕ) : Except Stop WindowState :=
  if p.overwritten.isSome then .error .outside
  else if p.children.length < wChildCount then .ok { p with
    children := p.children ++ [some window] }
  else .ok { p with overwritten := some window }

/-- A child is removed. The search for it may come to `child_count`, which is zero once the child is
removed there, and otherwise goes on behind it. -/
def WindowState.removeChild (p : WindowState) (window : ℕ) : Except Stop WindowState :=
  if p.children.contains (some window) then .ok { p with
    children := p.children.replace (some window) none }
  else
    match p.overwritten with
    | none => .ok p
    | some last =>
      if last = window then .ok { p with children := [], overwritten := none } else .error .outside

namespace WindowManager

variable (s : WindowManager)

/-- The window `w` with some fields assigned. -/
def setWindow (w : ℕ) (f : WindowState → WindowState) : WindowManager :=
  { s with windows := Function.update s.windows w (f (s.windows w)) }

/-- `getFirstFreeIndex` -/
def getFirstFreeIndex : Option ℕ := (List.range s.windowCount).find? fun i => (s.windows i).closed

/-- `get_window_index_from_pointer` -/
def getWindowIndexFromPointer (window : ℕ) : Option ℕ :=
  if window < s.windowCount then some window else none

/-- `update_render_order` -/
def updateRenderOrder : WindowManager :=
  match s.selectedWindow with
  | none => s
  | some w =>
    match FrontList.find s.renderOrder s.windowCount w with
    | none =>
      { s with
        renderOrder := Function.update
          (FrontList.shiftUp s.renderOrder (s.windowCount - 1)) 0 (some w) }
    | some found =>
      if found > 0 then
        { s with renderOrder :=
            Function.update (FrontList.shiftUp s.renderOrder found) 0 (s.renderOrder found) }
      else s

/-- `if(selectedWindow != NULL) selectedWindow->active = false;` -/
def deactivate : WindowManager :=
  match s.selectedWindow with
  | some w => s.setWindow w fun window => { window with active := false }
  | none => s

/-- `setSelectedWindowIndex`, with `none` for `-1`. -/
def setSelectedWindowIndex (index : Option ℕ) : WindowManager :=
  let before := s.renderOrder
  let s := { s.deactivate with selectedWindow := index }
  let s := match index with
    | some w => s.setWindow w fun window => { window with active := true }
    | none => s
  let s := s.updateRenderOrder
  { s with selections := s.selections ++ [⟨index, before, s.renderOrder⟩] }

/-- `windowmgr_focus_swap`, with `none` for `NULL`. -/
def focusSwap (window : Option ℕ) : WindowManager :=
  if window = s.selectedWindow then s
  else s.setSelectedWindowIndex (window.bind s.getWindowIndexFromPointer)

/-- `window_minimise` -/
def windowMinimise (window : ℕ) (minimise : Bool) : WindowManager :=
  if minimise then
    if (s.windows window).minimised then s
    else
      let s := s.setWindow window fun window => { window with minimised := true }
      if (s.windows window).active then s.setSelectedWindowIndex none else s
  else
    -- focus
    if (s.windows window).active then s
    else if (s.windows window).minimised then
      let s := s.setWindow window fun window => { window with minimised := false }
      if s.selectedWindow.isSome then s.focusSwap (some window)
      else s.setSelectedWindowIndex (s.getWindowIndexFromPointer window)
    else s.focusSwap (some window)

/-- `window_init`, as far as it can fail. -/
def windowInit (window : ℕ) : WindowManager :=
  s.setWindow window fun _ => ⟨false, false, false, [], none, none⟩

/-- The index of a new window. -/
def newIndex : WindowManager × Option ℕ :=
  match s.getFirstFreeIndex with
  | some index => (s, some index)
  | none =>
    if s.windowCount < maxWindows then
      ({ s with windowCount := s.windowCount + 1 }, some s.windowCount)
    else (s, none)

/-- A new window is initialised, and added to the end of the render order. -/
def addAt (index : ℕ) (allocated : Bool) : WindowManager × Option ℕ :=
  let s := s.windowInit index
  if allocated then
    match FrontList.firstNull s.renderOrder maxWindows with
    | some i => ({ s with renderOrder := Function.update s.renderOrder i (some index) }, some index)
    | none => (s, some index)
  else (s.setWindow index fun window => { window with closed := true }, none)

/-- `windowmgr_add` -/
def windowmgrAdd (allocated : Bool) : WindowManager × Option ℕ :=
  match s.newIndex with
  | (s, none) => (s, none)
  | (s, some index) => s.addAt index allocated

/-- `parent->children[parent->child_count++] = window; window->parent = parent;` -/
def linkChild (window parent : ℕ) : Except Stop WindowManager := do
  let p ← (s.windows parent).addChild window
  let s := s.setWindow parent fun _ => p
  return s.setWindow window fun window => { window with parent := some parent }

/-- A window is removed from its parent's child list. -/
def leaveParent (window : ℕ) : Except Stop WindowManager :=
  match (s.windows window).parent with
  | none => .ok s
  | some parent => do
    let p ← (s.windows parent).removeChild window
    let s := s.setWindow parent fun _ => p
    return s.setWindow window fun window => { window with parent := none }

/-- A window is removed from the render order. -/
def removeFromOrder (window : ℕ) : WindowManager :=
  match FrontList.find s.renderOrder s.windowCount window with
  | none => s
  | some i =>
    { s with
      renderOrder := Function.update (FrontList.shiftDown s.renderOrder i (s.windowCount - 1 - i))
        (s.windowCount - 1) none }

/-- The window in front is focused at the end of `window_close`. -/
def focusFirst : WindowManager :=
  match s.renderOrder 0 with
  | none => s
  | some w =>
    if !(s.windows w).closed && !(s.windows w).minimised then s.windowMinimise w false else s

/-- The state of a window is freed, which may close another. -/
def freeState (close : WindowManager → ℕ → Except Stop WindowManager) (dismisses : Option ℕ) :
    Except Stop WindowManager :=
  match dismisses with
  | none => .ok s
  | some w => close s w

/-- One round of the loop over the children. -/
def closeChild (close : WindowManager → ℕ → Except Stop WindowManager) (child : Option ℕ) :
    Except Stop WindowManager :=
  match child with
  | none => .ok s
  | some child => if (s.windows child).closed then .ok s else close s child

/-- The children of a window are closed with it. The last round may be that of `child_count`, which
is zero once the child in it has left. -/
def closeChildren (close : WindowManager → ℕ → Except Stop WindowManager) (window : ℕ) :
    Except Stop WindowManager := do
  let s ← (List.range (s.windows window).children.length).foldlM
    (fun s i => s.closeChild close (s.windows window).children[i]?.join) s
  let s ← s.closeChild close (s.windows window).overwritten
  if (s.windows window).overwritten.isSome then .error .outside else return s

/-- `window_close`, called at most `depth` deep. -/
def windowClose (answers : ℕ → Answer) : ℕ → WindowManager → ℕ → Except Stop WindowManager
  | 0, _, _ => .error .depth
  | depth + 1, s, windowIndex =>
    if windowIndex ≥ s.windowCount then .ok s
    else if (s.windows windowIndex).closed then .ok s
    else
      let answer := answers s.asked
      let s := { s with asked := s.asked + 1 }
      if windowIndex = 0 then
        -- debug window
        let s := s.windowMinimise windowIndex true
        match s.windowmgrAdd answer.allocated with
        | (s, none) => .ok s
        | (s, some popup) => do
          let s ← s.linkChild popup windowIndex
          return s.windowMinimise popup false
      else if answer.stays then .ok s
      else do
        let s := if s.selectedWindow = some windowIndex then s.setSelectedWindowIndex none else s
        let s ← s.leaveParent windowIndex
        let s := s.setWindow windowIndex fun window => { window with closed := true }
        let s ← s.freeState (fun s w => windowClose answers depth s w) answer.dismisses
        let s := s.removeFromOrder windowIndex
        -- take children with them
        let s ← s.closeChildren (fun s w => windowClose answers depth s w) windowIndex
        return s.focusFirst

/-- `windowmgr_init` -/
def init : WindowManager :=
  let s : WindowManager :=
    ⟨fun _ => ⟨false, false, false, [], none, none⟩, 0, fun _ => none, none, 0, []⟩
  let s := s.windowInit 0
  let s := s.setWindow 0 fun window => { window with active := true }
  let s := s.setSelectedWindowIndex (some 0)
  { s with
    windowCount := s.windowCount + 1, renderOrder := Function.update s.renderOrder 0 (some 0) }

end WindowManager

/-- A call of the window manager. `link` is what makes a window a child, in `api_create_window` and
the popups. -/
inductive WindowCall where
  | add (allocated : Bool)
  | close (windowIndex : ℤ)
  | minimise (window : ℕ) (minimise : Bool)
  | focusSwap (window : Option ℕ)
  | select (index : Option ℕ)
  | link (window parent : ℕ)

namespace WindowManager

def call (answers : ℕ → Answer) (s : WindowManager) : WindowCall → Except Stop WindowManager
  | .add allocated => .ok (s.windowmgrAdd allocated).1
  | .close windowIndex =>
    if windowIndex < 0 then .ok s else windowClose answers (maxWindows + 1) s windowIndex.toNat
  | .minimise window minimise => .ok (s.windowMinimise window minimise)
  | .focusSwap window => .ok (s.focusSwap window)
  | .select index => .ok (s.setSelectedWindowIndex index)
  | .link window parent => s.linkChild window parent

/-- Nothing is known behind a call that does not return. -/
def exec (answers : ℕ → Answer) (r : Except Stop WindowManager) (c : WindowCall) :
    Except Stop WindowManager × Unit :=
  (r.bind fun s => s.call answers c, ())

/-- An open window. -/
def IsOpen (s : WindowManager) (w : ℕ) : Prop := w < s.windowCount ∧ (s.windows w).closed = false

/-- The calls on open windows. A window that becomes a child is one that `windowmgr_add` gave. -/
def Legal (s : WindowManager) : WindowCall → Prop
  | .add _ => True
  | .close _ => True
  | .minimise window _ => s.IsOpen window
  | .focusSwap window => ∀ w ∈ window, s.IsOpen w
  | .select index => ∀ w ∈ index, s.IsOpen w
  | .link window parent => s.IsOpen window ∧ window ≠ 0 ∧ s.IsOpen parent

/-- A window can be added. -/
def CanAdd (s : WindowManager) (allocated : Bool) : Prop :=
  allocated = true ∧
    ((∃ i < s.windowCount, (s.windows i).closed = true) ∨ s.windowCount < maxWindows)

/-- Only the debug window may have an overwritten `child_count`, and then its children are all
listed. -/
structure Searchable (s : WindowManager) : Prop where
  counted : ∀ w ≠ 0, (s.windows w).overwritten = none
  listed : ∀ last ∈ (s.windows 0).overwritten, ∀ v, (s.windows v).parent = some 0 →
    some v ∈ (s.windows 0).children ∨ v = last

/-- An overwritten `child_count` is not used as a number. -/
def Keeps (answers : ℕ → Answer) (s : WindowManager) : WindowCall → Prop
  | .close windowIndex =>
    if windowIndex = 0 then s.CanAdd (answers s.asked).allocated → (s.windows 0).overwritten = none
    else 0 < windowIndex → s.Searchable
  | .link _ parent => (s.windows parent).overwritten = none
  | _ => True

/-- The render order is a list without duplicates of exactly the open windows, the selected window
is the first, and it alone is active. Every selection so far kept the order of the other windows. -/
structure Ordered (s : WindowManager) : Prop where
  order : ∃ l : List ℕ, l.Nodup ∧ (∀ w, w ∈ l ↔ s.IsOpen w) ∧
    FrontList.Represents maxWindows s.renderOrder l
  selected : ∀ w ∈ s.selectedWindow, s.IsOpen w ∧ s.renderOrder 0 = some w
  active : ∀ w, (s.windows w).active = true ↔ s.selectedWindow = some w
  kept : ∀ sel ∈ s.selections, Selection.Kept sel

/-! ### The invariant -/

/-- `l` is what the render order holds: the open windows, and those of `L`, which are being
closed. -/
structure Inv (L l : List ℕ) (s : WindowManager) : Prop where
  count : 0 < s.windowCount ∧ s.windowCount ≤ maxWindows
  order : FrontList.Represents maxWindows s.renderOrder l
  nodup : l.Nodup
  mem : ∀ w, w ∈ l ↔ s.IsOpen w ∨ w ∈ L
  closing : ∀ w ∈ L, w < s.windowCount ∧ (s.windows w).closed = true
  once : L.Nodup
  selected : ∀ w ∈ s.selectedWindow, s.IsOpen w ∧ l.head? = some w
  active : ∀ w, (s.windows w).active = true ↔ s.selectedWindow = some w
  debug : (s.windows 0).closed = false
  children : ∀ w, some 0 ∉ (s.windows w).children
  kept : ∀ sel ∈ s.selections, Selection.Kept sel

variable {s : WindowManager} {L l : List ℕ}

theorem setWindow_self (w : ℕ) (f : WindowState → WindowState) :
    (s.setWindow w f).windows w = f (s.windows w) :=
  Function.update_self ..

theorem setWindow_of_ne {v w : ℕ} (h : v ≠ w) (f : WindowState → WindowState) :
    (s.setWindow w f).windows v = s.windows v := Function.update_of_ne h ..

/-- A field that an assignment leaves alone. -/
theorem setWindow_field {β : Type} (field : WindowState → β) (w : ℕ) {f : WindowState → WindowState}
    (hf : field (f (s.windows w)) = field (s.windows w)) (v : ℕ) :
    field ((s.setWindow w f).windows v) = field (s.windows v) := by
  by_cases hv : v = w
  · rw [hv, setWindow_self, hf]
  · rw [setWindow_of_ne hv]

theorem Inv.ordered (h : Inv [] l s) : s.Ordered := by
  constructor
  · refine ⟨l, h.nodup, fun w => ?_, h.order⟩
    rw [h.mem]
    simp
  · intro w hw
    rw [h.order.zero (by decide)]
    exact h.selected w hw
  · exact h.active
  · exact h.kept

/-- What the order does not depend on. -/
theorem Inv.of_same {s' : WindowManager} (h : Inv L l s) (hcount : s'.windowCount = s.windowCount)
    (horder : s'.renderOrder = s.renderOrder) (hselected : s'.selectedWindow = s.selectedWindow)
    (hselections : s'.selections = s.selections)
    (hclosed : ∀ w, (s'.windows w).closed = (s.windows w).closed)
    (hactive : ∀ w, (s'.windows w).active = (s.windows w).active)
    (hchildren : ∀ w, some 0 ∉ (s'.windows w).children) : Inv L l s' := by
  have hopen (w : ℕ) : s'.IsOpen w ↔ s.IsOpen w := by
    unfold IsOpen
    rw [hcount, hclosed]
  constructor
  · rw [hcount]
    exact h.count
  · rw [horder]
    exact h.order
  · exact h.nodup
  · intro w
    rw [hopen]
    exact h.mem w
  · intro w hw
    rw [hcount, hclosed]
    exact h.closing w hw
  · exact h.once
  · intro w hw
    rw [hselected] at hw
    rw [hopen]
    exact h.selected w hw
  · intro w
    rw [hactive, hselected]
    exact h.active w
  · rw [hclosed]
    exact h.debug
  · exact hchildren
  · rw [hselections]
    exact h.kept

theorem Inv.lt_of_mem (h : Inv L l s) {w : ℕ} (hw : w ∈ l) : w < s.windowCount := by
  rcases (h.mem w).mp hw with hopen | hclosing
  · exact hopen.1
  · exact (h.closing w hclosing).1

theorem Inv.length_le (h : Inv L l s) : l.length ≤ s.windowCount := by
  have hsub : l ⊆ List.range s.windowCount := fun w hw => List.mem_range.mpr (h.lt_of_mem hw)
  have hle := (h.nodup.subperm hsub).length_le
  rwa [List.length_range] at hle

theorem Inv.closing_le (h : Inv L l s) : L.length ≤ l.length :=
  (h.once.subperm fun w hw => (h.mem w).mpr (.inr hw)).length_le

/-! ### Selections -/

@[simp] theorem updateRenderOrder_windows : s.updateRenderOrder.windows = s.windows := by
  unfold updateRenderOrder
  repeat' split
  all_goals rfl

@[simp] theorem updateRenderOrder_windowCount :
    s.updateRenderOrder.windowCount = s.windowCount := by
  unfold updateRenderOrder
  repeat' split
  all_goals rfl

@[simp] theorem updateRenderOrder_selectedWindow :
    s.updateRenderOrder.selectedWindow = s.selectedWindow := by
  unfold updateRenderOrder
  repeat' split
  all_goals rfl

@[simp] theorem updateRenderOrder_selections : s.updateRenderOrder.selections = s.selections := by
  unfold updateRenderOrder
  repeat' split
  all_goals rfl

/-- The window that is selected is moved to the front. -/
theorem updateRenderOrder_represents (h : FrontList.Represents maxWindows s.renderOrder l)
    (hcount : l.length ≤ s.windowCount) (hmax : s.windowCount ≤ maxWindows)
    (hsel : ∀ w ∈ s.selectedWindow, w ∈ l) :
    FrontList.Represents maxWindows s.updateRenderOrder.renderOrder
      (match s.selectedWindow with | none => l | some w => w :: l.erase w) := by
  unfold updateRenderOrder
  cases hw : s.selectedWindow with
  | none => exact h
  | some w =>
    have hmem := hsel w hw
    have hlt := List.idxOf_lt_length_of_mem hmem
    dsimp only
    rw [h.find_eq hmem hcount hmax]
    dsimp only
    split
    case isTrue =>
      have hcell : s.renderOrder (l.idxOf w) = some w := by
        rw [h.2 _ (by omega), List.getElem?_eq_getElem hlt, List.getElem_idxOf]
      rw [hcell]
      exact h.moveToFront hmem
    case isFalse hfirst =>
      -- it is the first already
      have hcons : w :: l.erase w = l := by
        cases l with
        | nil => exact absurd hmem List.not_mem_nil
        | cons v l =>
          by_cases hv : v = w
          · rw [hv, List.erase_cons_head]
          · rw [List.idxOf_cons_ne _ hv] at hfirst
            omega
      rw [hcons]
      exact h

theorem deactivate_windows (h : ∀ w, (s.windows w).active = true ↔ s.selectedWindow = some w)
    (w : ℕ) :
    s.deactivate.windows w = { s.windows w with active := false } := by
  unfold deactivate
  cases hold : s.selectedWindow with
  | none =>
    have hw := h w
    rw [hold] at hw
    have hfalse : (s.windows w).active = false := by simpa using hw
    dsimp only
    rw [← hfalse]
  | some v =>
    by_cases hv : w = v
    · rw [hv]
      exact setWindow_self ..
    · have hw := h w
      rw [hold] at hw
      have hfalse : (s.windows w).active = false := by
        rw [← Bool.not_eq_true, hw]
        simpa using Ne.symm hv
      dsimp only
      rw [setWindow_of_ne hv, ← hfalse]

@[simp] theorem deactivate_windowCount : s.deactivate.windowCount = s.windowCount := by
  unfold deactivate
  split <;> rfl

@[simp] theorem deactivate_renderOrder : s.deactivate.renderOrder = s.renderOrder := by
  unfold deactivate
  split <;> rfl

@[simp] theorem deactivate_selections : s.deactivate.selections = s.selections := by
  unfold deactivate
  split <;> rfl

/-- Only the flags of the windows change. -/
theorem setSelected_windows (h : ∀ w, (s.windows w).active = true ↔ s.selectedWindow = some w)
    (index : Option ℕ) (w : ℕ) : (s.setSelectedWindowIndex index).windows w = { s.windows w with
      active := decide (index = some w) } := by
  have hcleared := deactivate_windows h w
  unfold setSelectedWindowIndex
  dsimp only
  rw [updateRenderOrder_windows]
  cases index with
  | none => simpa using hcleared
  | some v =>
    dsimp only
    by_cases hv : w = v
    · rw [hv] at hcleared ⊢
      rw [setWindow_self]
      dsimp only
      rw [hcleared]
      simp
    · rw [setWindow_of_ne hv]
      have hne : decide (some v = some w) = false := by simpa using Ne.symm hv
      rw [hne]
      exact hcleared

@[simp] theorem setSelected_windowCount (index : Option ℕ) :
    (s.setSelectedWindowIndex index).windowCount = s.windowCount := by
  unfold setSelectedWindowIndex
  cases index <;> simp [setWindow]

@[simp] theorem setSelected_selectedWindow (index : Option ℕ) :
    (s.setSelectedWindowIndex index).selectedWindow = index := by
  unfold setSelectedWindowIndex
  cases index <;> simp [setWindow]

theorem setSelected_selections (index : Option ℕ) : (s.setSelectedWindowIndex index).selections =
    s.selections ++ [⟨index, s.renderOrder, (s.setSelectedWindowIndex index).renderOrder⟩] := by
  unfold setSelectedWindowIndex
  cases index <;> simp [setWindow]

/-- The list that a selection leaves. -/
def selectIn (l : List ℕ) : Option ℕ → List ℕ
  | none => l
  | some w => w :: l.erase w

theorem setSelected_order (h : FrontList.Represents maxWindows s.renderOrder l)
    (hcount : l.length ≤ s.windowCount)
    (hmax : s.windowCount ≤ maxWindows) {index : Option ℕ} (hindex : ∀ w ∈ index, w ∈ l) :
    FrontList.Represents maxWindows (s.setSelectedWindowIndex index).renderOrder
      (selectIn l index) := by
  unfold setSelectedWindowIndex
  cases index with
  | none =>
    have hupdate :=
      updateRenderOrder_represents (s := { s.deactivate with selectedWindow := none }) (l := l)
      (by simpa using h) (by simpa using hcount) (by simpa using hmax)
    exact hupdate hindex
  | some w =>
    have hupdate := updateRenderOrder_represents
      (s := setWindow { s.deactivate with selectedWindow := some w } w
      fun window => { window with active := true }) (l := l) (by simpa [setWindow] using h)
      (by simpa [setWindow] using hcount) (by simpa [setWindow] using hmax)
    exact hupdate hindex

/-- The other windows keep their order. -/
theorem selectIn_filter (l : List ℕ) (index : Option ℕ) :
    (selectIn l index).filter (fun w => some w ≠ index) = l.filter (fun w => some w ≠ index) := by
  cases index with
  | none => rfl
  | some w =>
    rw [selectIn, List.filter_cons_of_neg (by simp)]
    induction l with
    | nil => rfl
    | cons v l ih =>
      by_cases hv : v = w
      · rw [hv, List.erase_cons_head, List.filter_cons_of_neg (by simp)]
      · rw [List.erase_cons_tail (by simpa using hv), List.filter_cons, List.filter_cons, ih]

theorem Inv.mem_of_isOpen (h : Inv L l s) {w : ℕ} (hw : s.IsOpen w) : w ∈ l :=
  (h.mem w).mpr (.inl hw)

/-- What a selection preserves. -/
theorem Inv.select (h : Inv L l s) {index : Option ℕ} (hindex : ∀ w ∈ index, s.IsOpen w) :
    Inv L (selectIn l index) (s.setSelectedWindowIndex index) := by
  have hmem : ∀ w ∈ index, w ∈ l := fun w hw => h.mem_of_isOpen (hindex w hw)
  have horder := setSelected_order h.order h.length_le h.count.2 hmem
  have hwindows := setSelected_windows h.active index
  have hopen (w : ℕ) : (s.setSelectedWindowIndex index).IsOpen w ↔ s.IsOpen w := by
    unfold IsOpen
    rw [setSelected_windowCount, hwindows]
  constructor
  · rw [setSelected_windowCount]
    exact h.count
  · exact horder
  · cases index with
    | none => exact h.nodup
    | some w => exact List.nodup_cons.mpr ⟨h.nodup.not_mem_erase, h.nodup.erase w⟩
  · intro v
    rw [hopen, ← h.mem]
    cases index with
    | none => rfl
    | some w =>
      rw [selectIn, List.mem_cons, h.nodup.mem_erase_iff]
      have hw := hmem w rfl
      constructor
      · rintro (rfl | ⟨-, hv⟩)
        · exact hw
        · exact hv
      · intro hv
        by_cases hvw : v = w
        · exact .inl hvw
        · exact .inr ⟨hvw, hv⟩
  · intro w hw
    rw [setSelected_windowCount, hwindows]
    exact h.closing w hw
  · exact h.once
  · intro w hw
    rw [setSelected_selectedWindow] at hw
    rw [hopen]
    refine ⟨hindex w hw, ?_⟩
    rw [Option.mem_def.mp hw]
    rfl
  · intro w
    rw [hwindows, setSelected_selectedWindow]
    simp
  · rw [hwindows]
    exact h.debug
  · intro w
    rw [hwindows]
    exact h.children w
  · intro sel hsel
    rw [setSelected_selections, List.mem_append, List.mem_singleton] at hsel
    rcases hsel with hold | rfl
    · exact h.kept sel hold
    · unfold Selection.Kept
      dsimp only
      rw [horder.elements_eq, h.order.elements_eq]
      exact selectIn_filter l index

theorem Inv.length_selectIn (h : Inv L l s) {index : Option ℕ} (hindex : ∀ w ∈ index, s.IsOpen w) :
    (selectIn l index).length = l.length := by
  cases index with
  | none => rfl
  | some w =>
    have hmem := h.mem_of_isOpen (hindex w rfl)
    have hpos := List.length_pos_of_mem hmem
    rw [selectIn, List.length_cons, List.length_erase_of_mem hmem]
    omega

/-- The same windows are open, with the same children. -/
structure SameWindows (s t : WindowManager) : Prop where
  count : t.windowCount = s.windowCount
  closed : ∀ w, (t.windows w).closed = (s.windows w).closed
  links : ∀ w, (t.windows w).links = (s.windows w).links

theorem SameWindows.refl (s : WindowManager) : SameWindows s s := ⟨rfl, fun _ => rfl, fun _ => rfl⟩

theorem SameWindows.trans {t u : WindowManager} (h : SameWindows s t) (h' : SameWindows t u) :
    SameWindows s u :=
  ⟨h'.count.trans h.count, fun w => (h'.closed w).trans (h.closed w),
    fun w => (h'.links w).trans (h.links w)⟩

theorem SameWindows.isOpen {t : WindowManager} (h : SameWindows s t) (w : ℕ) :
    t.IsOpen w ↔ s.IsOpen w := by
  unfold IsOpen
  rw [h.count, h.closed]

/-- The order of the same windows may change. -/
structure Reordered (L l : List ℕ) (s t : WindowManager) : Prop where
  same : SameWindows s t
  inv : ∃ l', l'.length = l.length ∧ Inv L l' t

theorem Inv.reordered (h : Inv L l s) : Reordered L l s s := ⟨.refl s, l, rfl, h⟩

theorem Reordered.trans {t u : WindowManager} (h : SameWindows s t) (h' : Reordered L l t u) :
    Reordered L l s u :=
  ⟨h.trans h'.same, h'.inv⟩

theorem Inv.setSelected (h : Inv L l s) {index : Option ℕ} (hindex : ∀ w ∈ index, s.IsOpen w) :
    Reordered L l s (s.setSelectedWindowIndex index) := by
  constructor
  · constructor
    · exact setSelected_windowCount index
    · exact fun w => by rw [setSelected_windows h.active]
    · intro w
      rw [setSelected_windows h.active]
      rfl
  · exact ⟨_, h.length_selectIn hindex, h.select hindex⟩

theorem getWindowIndex_of_isOpen {w : ℕ} (hw : s.IsOpen w) :
    s.getWindowIndexFromPointer w = some w := if_pos hw.1

theorem Inv.focusSwap (h : Inv L l s) {window : Option ℕ} (hwindow : ∀ w ∈ window, s.IsOpen w) :
    Reordered L l s (s.focusSwap window) := by
  unfold WindowManager.focusSwap
  split
  case isTrue => exact h.reordered
  case isFalse =>
    cases window with
    | none => exact h.setSelected hwindow
    | some w =>
      rw [Option.bind_some, getWindowIndex_of_isOpen (hwindow w rfl)]
      exact h.setSelected hwindow

/-- Assignments to other fields of a window, and to its children. -/
theorem Inv.setWindow (h : Inv L l s) (w : ℕ) {f : WindowState → WindowState}
    (hclosed : (f (s.windows w)).closed = (s.windows w).closed)
    (hactive : (f (s.windows w)).active = (s.windows w).active)
    (hchildren : some 0 ∉ (f (s.windows w)).children) :
    Inv L l (s.setWindow w f) := by
  refine h.of_same rfl rfl rfl rfl ?_ ?_ fun v => ?_
  · exact setWindow_field WindowState.closed w hclosed
  · exact setWindow_field WindowState.active w hactive
  · by_cases hv : v = w
    · rw [hv, setWindow_self]
      exact hchildren
    · rw [setWindow_of_ne hv]
      exact h.children v

/-- Whether a window is minimised does not matter. -/
theorem Inv.setMinimised (h : Inv L l s) (w : ℕ) (b : Bool) :
    Inv L l (s.setWindow w fun window => { window with minimised := b }) :=
  h.setWindow w rfl rfl (h.children w)

theorem sameWindows_setMinimised (w : ℕ) (b : Bool) :
    SameWindows s (s.setWindow w fun window => { window with minimised := b }) :=
  ⟨rfl, setWindow_field WindowState.closed w rfl, setWindow_field WindowState.links w rfl⟩

theorem Inv.windowMinimise (h : Inv L l s) {window : ℕ} (hwindow : s.IsOpen window)
    (minimise : Bool) :
    Reordered L l s (s.windowMinimise window minimise) := by
  have hsame (b : Bool) := sameWindows_setMinimised (s := s) window b
  have hopen (b : Bool) :
      ∀ w ∈ some window,
        (s.setWindow window fun window => { window with minimised := b }).IsOpen w := by
    intro w hw
    rw [(hsame b).isOpen, ← Option.some.inj hw]
    exact hwindow
  unfold WindowManager.windowMinimise
  dsimp only
  split
  case isTrue =>
    split
    case isTrue => exact h.reordered
    case isFalse =>
      apply Reordered.trans (hsame true)
      split
      case isTrue =>
        have hnone (t : WindowManager) : ∀ v ∈ (none : Option ℕ), t.IsOpen v :=
          fun v hv => absurd hv (Option.not_mem_none v)
        exact (h.setMinimised window true).setSelected (hnone _)
      case isFalse => exact (h.setMinimised window true).reordered
  case isFalse =>
    split
    case isTrue => exact h.reordered
    case isFalse =>
      split
      case isTrue =>
        apply Reordered.trans (hsame false)
        split
        case isTrue => exact (h.setMinimised window false).focusSwap (hopen false)
        case isFalse =>
          rw [getWindowIndex_of_isOpen (hopen false window rfl)]
          exact (h.setMinimised window false).setSelected (hopen false)
      case isFalse => exact h.focusSwap fun w hw => Option.some.inj hw ▸ hwindow

/-- Only the tree of windows matters to a search. -/
theorem Searchable.of_links {t : WindowManager} (h : s.Searchable)
    (hlinks : ∀ w, (t.windows w).links = (s.windows w).links) : t.Searchable := by
  have hchildren (w : ℕ) : (t.windows w).children = (s.windows w).children :=
    congrArg Prod.fst (hlinks w)
  have hoverwritten (w : ℕ) : (t.windows w).overwritten = (s.windows w).overwritten :=
    congrArg (fun links => links.2.1) (hlinks w)
  have hparent (w : ℕ) : (t.windows w).parent = (s.windows w).parent :=
    congrArg (fun links => links.2.2) (hlinks w)
  constructor
  · intro w hw
    rw [hoverwritten]
    exact h.counted w hw
  · intro last hlast v hv
    rw [hoverwritten] at hlast
    rw [hparent] at hv
    rw [hchildren]
    exact h.listed last hlast v hv

/-- The window in front is open unless it is being closed. -/
theorem Inv.focusFirst (h : Inv L l s) : Reordered L l s s.focusFirst := by
  unfold WindowManager.focusFirst
  cases hfirst : s.renderOrder 0 with
  | none => exact h.reordered
  | some w =>
    dsimp only
    split
    case isTrue hw =>
      have hmem : w ∈ l := by
        rw [h.order.zero (by decide)] at hfirst
        exact List.mem_of_mem_head? hfirst
      have hclosed : (s.windows w).closed = false := by
        rw [Bool.and_eq_true, Bool.not_eq_true'] at hw
        exact hw.1
      exact h.windowMinimise ⟨h.lt_of_mem hmem, hclosed⟩ false
    case isFalse => exact h.reordered

end WindowManager

end X86Kernel.Gui
