import X86Kernel.Gui.Order

/-! Windows are closed and added, and what runs of the window manager keep in order. -/
namespace X86Kernel.Gui

namespace WindowManager

variable {s : WindowManager} {L l : List ℕ}

/-! ### A window is closed -/

/-- A window that is marked as closed is still in the order. -/
theorem Inv.setClosed (h : Inv L l s) {w : ℕ} (hw : s.IsOpen w) (hzero : w ≠ 0)
    (hsel : s.selectedWindow ≠ some w) :
    Inv (w :: L) l (s.setWindow w fun window => { window with closed := true }) := by
  have hcl : (v : ℕ) → v ≠ w →
        ((s.setWindow w fun window => { window with closed := true }).windows v).closed
      = (s.windows v).closed := fun v hv => by rw [setWindow_of_ne hv]
  have hself :
      ((s.setWindow w fun window => { window with closed := true }).windows w).closed = true := by
    rw [setWindow_self]
  have hopen (v : ℕ) (hv : v ≠ w) :
      (s.setWindow w fun window => { window with closed := true }).IsOpen v ↔ s.IsOpen v := by
    unfold IsOpen
    rw [hcl v hv]
    rfl
  have hnot : w ∉ L := fun hL => by
    have hclosed := (h.closing w hL).2
    rw [hw.2] at hclosed
    exact Bool.false_ne_true hclosed
  constructor
  · exact h.count
  · exact h.order
  · exact h.nodup
  · intro v
    by_cases hv : v = w
    · rw [hv]
      exact iff_of_true (h.mem_of_isOpen hw) (.inr (List.mem_cons_self ..))
    · rw [hopen v hv, h.mem, List.mem_cons]
      simp [hv]
  · intro v hv
    by_cases hvw : v = w
    · rw [hvw]
      exact ⟨hw.1, hself⟩
    · rw [hcl v hvw]
      exact h.closing v ((List.mem_cons.mp hv).resolve_left hvw)
  · exact List.nodup_cons.mpr ⟨hnot, h.once⟩
  · intro v hv
    have hvw : v ≠ w := fun heq => hsel (heq ▸ hv)
    rw [hopen v hvw]
    exact h.selected v hv
  · intro v
    rw [setWindow_field WindowState.active w rfl v]
    exact h.active v
  · rw [hcl 0 hzero.symm]
    exact h.debug
  · intro v
    rw [setWindow_field WindowState.children w rfl v]
    exact h.children v
  · exact h.kept

/-- A window that is being closed leaves the order. -/
theorem Inv.removeFromOrder {w : ℕ} (h : Inv (w :: L) l s) :
    Inv L (l.erase w) (s.removeFromOrder w) := by
  have hmem : w ∈ l := (h.mem w).mpr (.inr (List.mem_cons_self ..))
  have hclosed := (h.closing w (List.mem_cons_self ..)).2
  have hfind := h.order.find_eq hmem h.length_le h.count.2
  have heq : s.removeFromOrder w = { s with
      renderOrder := (Function.update (FrontList.shiftDown s.renderOrder (l.idxOf w)
        (s.windowCount - 1 - l.idxOf w)) (s.windowCount - 1) none) } := by
    unfold WindowManager.removeFromOrder
    rw [hfind]
  rw [heq]
  constructor
  · exact h.count
  · exact h.order.erase hmem h.length_le h.count.2
  · exact h.nodup.erase w
  · intro v
    rw [h.nodup.mem_erase_iff, h.mem, List.mem_cons]
    constructor
    · rintro ⟨hv, hopen | rfl | hL⟩
      · exact .inl hopen
      · exact absurd rfl hv
      · exact .inr hL
    · rintro (hopen | hL)
      · refine ⟨?_, .inl hopen⟩
        rintro rfl
        exact absurd (hopen.2.symm.trans hclosed) Bool.false_ne_true
      · refine ⟨?_, .inr (.inr hL)⟩
        rintro rfl
        exact (List.nodup_cons.mp h.once).1 hL
  · exact fun v hv => h.closing v (List.mem_cons_of_mem _ hv)
  · exact (List.nodup_cons.mp h.once).2
  · intro v hv
    obtain ⟨hopen, hhead⟩ := h.selected v hv
    refine ⟨hopen, ?_⟩
    have hvw : v ≠ w := by
      rintro rfl
      exact absurd (hopen.2.symm.trans hclosed) Bool.false_ne_true
    cases l with
    | nil => exact absurd hmem List.not_mem_nil
    | cons u l =>
      have hu : u = v := Option.some.inj hhead
      rw [hu, List.erase_cons_tail (by simpa using hvw)]
      rfl
  · exact h.active
  · exact h.debug
  · exact h.children
  · exact h.kept

@[simp] theorem removeFromOrder_windows (w : ℕ) : (s.removeFromOrder w).windows = s.windows := by
  unfold WindowManager.removeFromOrder
  split <;> rfl

theorem mem_of_mem_replace {l : List (Option ℕ)} {a b c : Option ℕ} (h : c ∈ l.replace a b) :
    c ∈ l ∨ c = b := by
  induction l with
  | nil => exact .inl h
  | cons d l ih =>
    rw [List.replace_cons] at h
    split at h
    · rcases List.mem_cons.mp h with heq | hmem
      · exact .inr heq
      · exact .inl (.tail _ hmem)
    · rcases List.mem_cons.mp h with heq | hmem
      · exact .inl (heq ▸ .head _)
      · exact (ih hmem).imp (.tail _) id

theorem mem_replace_of_ne {l : List (Option ℕ)} {a b c : Option ℕ} (h : c ∈ l) (hne : c ≠ a) :
    c ∈ l.replace a b := by
  obtain ⟨i, hi⟩ := List.mem_iff_getElem?.mp h
  apply List.mem_of_getElem? (i := i)
  rw [List.getElem?_replace_of_ne, hi]
  rw [hi]
  exact fun heq => hne (Option.some.inj heq)

/-- What removing a child leaves of its parent. -/
structure Removed (p p' : WindowState) (window : ℕ) : Prop where
  closed : p'.closed = p.closed
  active : p'.active = p.active
  parent : p'.parent = p.parent
  children : ∀ c ∈ p'.children, c ∈ p.children ∨ c = none
  overwritten : ∀ last ∈ p'.overwritten, p.overwritten = some last ∧
    ∀ v ≠ window, some v ∈ p.children → some v ∈ p'.children

theorem removeChild_ok {p : WindowState} {window : ℕ}
    (h : ∀ last ∈ p.overwritten, some window ∈ p.children ∨ window = last) :
    ∃ p', p.removeChild window = .ok p' ∧ Removed p p' window := by
  unfold WindowState.removeChild
  split
  case isTrue hmem =>
    refine ⟨_, rfl, rfl, rfl, rfl, fun c hc => mem_of_mem_replace hc,
      fun last hlast => ⟨hlast, fun v hv hvmem => ?_⟩⟩
    exact mem_replace_of_ne hvmem fun heq => hv (Option.some.inj heq)
  case isFalse hmem =>
    cases hover : p.overwritten with
    | none =>
      refine ⟨p, rfl, rfl, rfl, rfl, fun c hc => .inl hc, fun last hlast => ?_⟩
      rw [hover] at hlast
      exact absurd hlast (Option.not_mem_none _)
    | some last =>
      have hnot : some window ∉ p.children := fun hin => hmem (List.contains_iff_mem.mpr hin)
      have hlast : last = window := ((h last hover).resolve_left hnot).symm
      dsimp only
      rw [if_pos hlast]
      exact ⟨_, rfl, rfl, rfl, rfl, fun c hc => absurd hc List.not_mem_nil,
        fun _ h => absurd h (Option.not_mem_none _)⟩

/-- What leaving its parent keeps. -/
structure Left (L l : List ℕ) (s t : WindowManager) : Prop where
  inv : Inv L l t
  searchable : t.Searchable
  closed : ∀ v, (t.windows v).closed = (s.windows v).closed
  count : t.windowCount = s.windowCount
  selected : t.selectedWindow = s.selectedWindow

/-- A window that has left its parent is one child less to search for. -/
theorem Searchable.removed (h : s.Searchable) {w p : ℕ} (hw : w ≠ 0) {p' : WindowState}
    (hr : Removed (s.windows p) p' w) :
    ((s.setWindow p fun _ => p').setWindow w fun window =>
      { window with parent := none }).Searchable := by
  have hchildren := setWindow_field (s := s.setWindow p fun _ => p') WindowState.children w
    (f := fun window => { window with parent := none }) rfl
  have hoverwritten := setWindow_field (s := s.setWindow p fun _ => p') WindowState.overwritten w
    (f := fun window => { window with parent := none }) rfl
  constructor
  · intro v hv
    rw [hoverwritten]
    by_cases hvp : v = p
    · rw [hvp, setWindow_self]
      apply Option.eq_none_iff_forall_not_mem.mpr
      intro last hlast
      have hcounted := h.counted p (hvp ▸ hv)
      rw [(hr.overwritten last hlast).1] at hcounted
      cases hcounted
    · rw [setWindow_of_ne hvp]
      exact h.counted v hv
  · intro last hlast v hparent
    have hvw : v ≠ w := by
      rintro rfl
      rw [setWindow_self] at hparent
      cases hparent
    rw [setWindow_of_ne hvw, setWindow_field WindowState.parent p hr.parent] at hparent
    rw [hoverwritten] at hlast
    rw [hchildren]
    by_cases hp : (0 : ℕ) = p
    · subst hp
      rw [setWindow_self] at hlast ⊢
      obtain ⟨hold, hkept⟩ := hr.overwritten last hlast
      exact (h.listed last hold v hparent).imp (hkept v hvw) id
    · rw [setWindow_of_ne hp] at hlast ⊢
      exact h.listed last hlast v hparent

theorem Inv.leaveParent (h : Inv L l s) (hs : s.Searchable) {w : ℕ} (hw : w ≠ 0) :
    ∃ t, s.leaveParent w = .ok t ∧ Left L l s t := by
  unfold WindowManager.leaveParent
  cases hparent : (s.windows w).parent with
  | none => exact ⟨s, rfl, h, hs, fun _ => rfl, rfl, rfl⟩
  | some p =>
    have hfound : ∀ last ∈ (s.windows p).overwritten, some w ∈ (s.windows p).children ∨
        w = last := by
      intro last hlast
      by_cases hp : p = 0
      · subst hp
        exact hs.listed last hlast w hparent
      · rw [hs.counted p hp] at hlast
        exact absurd hlast (Option.not_mem_none _)
    obtain ⟨p', hremove, hr⟩ := removeChild_ok hfound
    have hchildren : some 0 ∉ p'.children := by
      intro hmem
      rcases hr.children _ hmem with hold | hnew
      · exact h.children p hold
      · cases hnew
    have hp := h.setWindow p (f := fun _ => p') hr.closed hr.active hchildren
    refine ⟨_, ?_, hp.setWindow w rfl rfl (hp.children w), hs.removed hw hr, fun v => ?_, rfl, rfl⟩
    · dsimp only
      rw [hremove]
      rfl
    · rw [setWindow_field WindowState.closed w rfl, setWindow_field WindowState.closed p hr.closed]

/-- What the answers are asked for does not matter. -/
theorem Inv.setAsked (h : Inv L l s) (asked : ℕ) : Inv L l { s with asked := asked } :=
  h.of_same rfl rfl rfl rfl (fun _ => rfl) (fun _ => rfl) h.children

/-- The window is no longer selected. -/
theorem Inv.deselect (h : Inv L l s) (w : ℕ) :
    Inv L l (if s.selectedWindow = some w then s.setSelectedWindowIndex none else s) := by
  split
  case isTrue =>
    have hnone : ∀ v ∈ (none : Option ℕ), s.IsOpen v :=
      fun v hv => absurd hv (Option.not_mem_none v)
    exact h.select hnone
  case isFalse => exact h

/-- The window is no longer selected, nor the child of another, and is marked as closed. -/
theorem Inv.beginClose (h : Inv L l s) (hs : s.Searchable) {w : ℕ} (hw : s.IsOpen w)
    (hzero : w ≠ 0) :
    ∃ t, (if s.selectedWindow = some w then s.setSelectedWindowIndex none
      else s).leaveParent w = .ok t ∧
      Inv (w :: L) l (t.setWindow w fun window => { window with closed := true }) ∧
      (t.setWindow w fun window => { window with closed := true }).Searchable := by
  have hdeselected := h.deselect w
  have hlinks : ∀ v,
        ((if s.selectedWindow = some w then s.setSelectedWindowIndex none else s).windows v).links =
      (s.windows v).links := by
    intro v
    split
    case isTrue =>
      rw [setSelected_windows h.active]
      rfl
    case isFalse => rfl
  have hopen :
      (if s.selectedWindow = some w then s.setSelectedWindowIndex none else s).IsOpen w := by
    split
    case isTrue =>
      unfold IsOpen
      rw [setSelected_windowCount, setSelected_windows h.active]
      exact hw
    case isFalse => exact hw
  have hsel : (if s.selectedWindow = some w then s.setSelectedWindowIndex none
      else s).selectedWindow ≠ some w := by
    split
    case isTrue => simp
    case isFalse hne => exact hne
  generalize (if s.selectedWindow = some w then s.setSelectedWindowIndex none else s) = u at *
  obtain ⟨t, heq, hleft⟩ := hdeselected.leaveParent (hs.of_links hlinks) hzero
  have hopen' : t.IsOpen w := by
    unfold IsOpen
    rw [hleft.count, hleft.closed]
    exact hopen
  refine ⟨t, heq, hleft.inv.setClosed hopen' hzero (by rw [hleft.selected]; exact hsel), ?_⟩
  exact hleft.searchable.of_links fun v => setWindow_field WindowState.links w rfl v

variable {answers : ℕ → Answer}

/-- A loop whose every round succeeds and keeps `P`. -/
theorem foldlM_ok {P : WindowManager → Prop} {f : WindowManager → ℕ → Except Stop WindowManager}
    (hround : ∀ t i, P t → ∃ t', f t i = .ok t' ∧ P t') (is : List ℕ) (h : P s) :
    ∃ s', is.foldlM f s = .ok s' ∧ P s' := by
  induction is generalizing s with
  | nil => exact ⟨s, rfl, h⟩
  | cons i is ih =>
    obtain ⟨t, hf, ht⟩ := hround s i h
    obtain ⟨s', hrest, hs'⟩ := ih ht
    refine ⟨s', ?_, hs'⟩
    rw [List.foldlM_cons, hf]
    exact hrest

/-- The order did not get longer, and the child lists can still be searched. -/
structure Shrunk (L : List ℕ) (n : ℕ) (s : WindowManager) : Prop where
  inv : ∃ l, l.length ≤ n ∧ Inv L l s
  searchable : s.Searchable

/-- What closing a window other than the debug window is known to do. -/
def Closes (L : List ℕ) (n : ℕ) (close : WindowManager → ℕ → Except Stop WindowManager) : Prop :=
  ∀ {s : WindowManager} {w : ℕ}, Shrunk L n s → w ≠ 0 → ∃ s', close s w = .ok s' ∧ Shrunk L n s'

variable {close : WindowManager → ℕ → Except Stop WindowManager} {n : ℕ}

theorem Shrunk.freeState (h : Shrunk L n s) (hclose : Closes L n close) {dismisses : Option ℕ}
    (hzero : dismisses ≠ some 0) : ∃ s', s.freeState close dismisses = .ok s' ∧ Shrunk L n s' := by
  cases dismisses with
  | none => exact ⟨s, rfl, h⟩
  | some w =>
    apply hclose h
    rintro rfl
    exact hzero rfl

theorem Shrunk.closeChild (h : Shrunk L n s) (hclose : Closes L n close) {child : Option ℕ}
    (hzero : child ≠ some 0) :
    ∃ s', s.closeChild close child = .ok s' ∧ Shrunk L n s' := by
  cases child with
  | none => exact ⟨s, rfl, h⟩
  | some child =>
    unfold WindowManager.closeChild
    dsimp only
    split
    case isTrue => exact ⟨s, rfl, h⟩
    case isFalse =>
      apply hclose h
      rintro rfl
      exact hzero rfl

theorem Shrunk.closeChildren (h : Shrunk L n s) (hclose : Closes L n close) {window : ℕ}
    (hw : window ≠ 0) :
    ∃ s', s.closeChildren close window = .ok s' ∧ Shrunk L n s' := by
  obtain ⟨s₁, heq₁, h₁⟩ := foldlM_ok (P := Shrunk L n) (s := s)
    (f := fun s i => s.closeChild close (s.windows window).children[i]?.join) (fun t i ht => by
      apply ht.closeChild hclose
      intro hchild
      obtain ⟨l, _, hinv⟩ := ht.inv
      exact hinv.children window (List.mem_of_getElem? (Option.join_eq_some_iff.mp hchild)))
    (List.range (s.windows window).children.length) h
  have hnone := h₁.searchable.counted window hw
  refine ⟨s₁, ?_, h₁⟩
  unfold WindowManager.closeChildren
  rw [heq₁]
  change (do
    let s ← s₁.closeChild close (s₁.windows window).overwritten
    if (s.windows window).overwritten.isSome then Except.error Stop.outside else return s) =
      Except.ok s₁
  rw [hnone]
  change (if (s₁.windows window).overwritten.isSome then Except.error Stop.outside else return s₁) =
    Except.ok s₁
  rw [hnone]
  rfl

/-- A window other than the debug window is closed, with its children and with the window that its
state dismisses. -/
theorem closes_windowClose (depth : ℕ) (hdepth : n < depth + L.length) :
    Closes L n (WindowManager.windowClose answers depth) := by
  induction depth generalizing L n with
  | zero =>
    rintro s w ⟨⟨l, hlen, h⟩, -⟩ -
    have hle := h.closing_le
    omega
  | succ depth ih =>
    rintro s w ⟨⟨l, hlen, h⟩, hs⟩ hzero
    unfold WindowManager.windowClose
    split
    case isTrue => exact ⟨s, rfl, ⟨l, hlen, h⟩, hs⟩
    case isFalse hlt =>
      split
      case isTrue => exact ⟨s, rfl, ⟨l, hlen, h⟩, hs⟩
      case isFalse hclosed =>
        dsimp only
        have hasked : (({ s with asked := s.asked + 1 } : WindowManager)).Searchable :=
          hs.of_links fun _ => rfl
        split
        case isTrue => exact ⟨_, rfl, ⟨l, hlen, h.setAsked _⟩, hasked⟩
        case isFalse =>
          have hopen : s.IsOpen w := ⟨by omega, by simpa using hclosed⟩
          obtain ⟨s₁, heq₁, h₁, hs₁⟩ := (h.setAsked (s.asked + 1)).beginClose hasked hopen hzero
          -- what the state dismisses is closed while this window is still in the order
          have hshrunk₁ : Shrunk (w :: L) n _ := ⟨⟨l, hlen, h₁⟩, hs₁⟩
          obtain ⟨s₂, heq₂, ⟨l₂, hlen₂, h₂⟩, hs₂⟩ :=
            hshrunk₁.freeState (ih (by rw [List.length_cons]; omega)) (answers s.asked).ne_zero
          have hmem : w ∈ l₂ := (h₂.mem w).mpr (.inr (List.mem_cons_self ..))
          have hlen₃ := List.length_erase_of_mem hmem
          have hpos := List.length_pos_of_mem hmem
          have hshrunk₃ : Shrunk L (n - 1) (s₂.removeFromOrder w) :=
            ⟨⟨_, by omega, h₂.removeFromOrder⟩,
              hs₂.of_links fun v => by rw [removeFromOrder_windows]⟩
          obtain ⟨s₄, heq₄, ⟨l₄, hlen₄, h₄⟩, hs₄⟩ := hshrunk₃.closeChildren (ih (by omega)) hzero
          obtain ⟨hsame, l₅, hlen₅, h₅⟩ := h₄.focusFirst
          refine ⟨s₄.focusFirst, ?_, ⟨l₅, by omega, h₅⟩, hs₄.of_links hsame.links⟩
          rw [heq₁]
          change (do
            let s ← (s₁.setWindow w fun window => { window with closed := true }).freeState
              (fun s w => WindowManager.windowClose answers depth s w) (answers s.asked).dismisses
            let s ← (s.removeFromOrder w).closeChildren
                (fun s w => WindowManager.windowClose answers depth s w) w
            return s.focusFirst) = Except.ok s₄.focusFirst
          rw [heq₂]
          change (do
            let s ← (s₂.removeFromOrder w).closeChildren
                (fun s w => WindowManager.windowClose answers depth s w) w
            return s.focusFirst) = Except.ok s₄.focusFirst
          rw [heq₄]
          rfl

/-! ### A window is added -/

/-- A slot of `gui_windows` for a new window. -/
structure Slot (s t : WindowManager) (index : ℕ) : Prop where
  windows : t.windows = s.windows
  order : t.renderOrder = s.renderOrder
  selected : t.selectedWindow = s.selectedWindow
  selections : t.selections = s.selections
  count : t.windowCount ≤ maxWindows
  count_le : t.windowCount ≤ s.windowCount + 1
  lt : index < t.windowCount
  ne_zero : index ≠ 0
  notOpen : ¬s.IsOpen index
  isOpen : ∀ w ≠ index, t.IsOpen w ↔ s.IsOpen w
  canAdd : s.CanAdd true

/-- A window that is initialised, and is open or not. -/
theorem Inv.initialised {t : WindowManager} {index : ℕ} (h : Inv [] l s) (hslot : Slot s t index)
    (closed : Bool) {o : ℕ → Option ℕ} {l' : List ℕ} (horder : FrontList.Represents maxWindows o l')
    (hnodup : l'.Nodup) (hmem : ∀ w, w ∈ l' ↔ w ∈ l ∨ w = index ∧ closed = false)
    (hhead : ∀ w ∈ s.selectedWindow, l'.head? = l.head?) :
    Inv [] l' { t with
      windows := Function.update t.windows index ⟨false, false, closed, [], none, none⟩
      renderOrder := o } := by
  have hother (w : ℕ) (hw : w ≠ index) :
      Function.update t.windows index ⟨false, false, closed, [], none, none⟩ w = s.windows w := by
    rw [Function.update_of_ne hw, hslot.windows]
  have hself : Function.update t.windows index ⟨false, false, closed, [], none, none⟩ index
      = ⟨false, false, closed, [], none, none⟩ := Function.update_self ..
  have hsel : ∀ w ∈ s.selectedWindow, w ≠ index := by
    rintro w hw rfl
    exact hslot.notOpen (h.selected w hw).1
  have hopen : ∀ w, IsOpen { t with
      windows := Function.update t.windows index ⟨false, false, closed, [], none, none⟩
      renderOrder := o } w ↔ s.IsOpen w ∨ w = index ∧ closed = false := by
    intro w
    by_cases hw : w = index
    · unfold IsOpen
      dsimp only
      rw [hw, hself]
      constructor
      · intro hclosed
        exact .inr ⟨rfl, hclosed.2⟩
      · rintro (hopen | hclosed)
        · exact absurd hopen hslot.notOpen
        · exact ⟨hslot.lt, hclosed.2⟩
    · rw [or_iff_left (fun hclosed => hw hclosed.1), ← hslot.isOpen w hw]
      unfold IsOpen
      dsimp only
      rw [hother w hw, hslot.windows]
  constructor
  · exact ⟨Nat.zero_lt_of_lt hslot.lt, hslot.count⟩
  · exact horder
  · exact hnodup
  · intro w
    rw [hopen, hmem, h.mem]
    simp
  · exact fun w hw => absurd hw List.not_mem_nil
  · exact List.nodup_nil
  · intro w hw
    have hw' : w ∈ s.selectedWindow := hslot.selected ▸ hw
    rw [hopen, hhead w hw']
    exact ⟨.inl (h.selected w hw').1, (h.selected w hw').2⟩
  · intro w
    dsimp only
    rw [hslot.selected, ← h.active w]
    by_cases hw : w = index
    · rw [hw, hself]
      have hnot : ¬(s.windows index).active = true := by
        intro hactive
        exact hsel index ((h.active index).mp hactive) rfl
      simpa using hnot
    · rw [hother w hw]
  · dsimp only
    rw [hother 0 hslot.ne_zero.symm]
    exact h.debug
  · intro w
    dsimp only
    by_cases hw : w = index
    · rw [hw, hself]
      exact List.not_mem_nil
    · rw [hother w hw]
      exact h.children w
  · dsimp only
    rw [hslot.selections]
    exact h.kept

/-- A slot is found, or there is none. -/
theorem Inv.newIndex (h : Inv [] l s) : (∃ t index, Slot s t index ∧ s.newIndex = (t, some index)) ∨
    ¬s.CanAdd true ∧ s.newIndex = (s, none) := by
  unfold WindowManager.newIndex
  cases hfree : s.getFirstFreeIndex with
  | some index =>
    obtain ⟨hclosed, hlt, _⟩ := List.find?_range_eq_some.mp hfree
    have hlt := List.mem_range.mp hlt
    refine .inl ⟨s, index,
      ⟨rfl, rfl, rfl, rfl, h.count.2, Nat.le_succ _, hlt, ?_, ?_, fun _ _ => Iff.rfl, ?_⟩, rfl⟩
    · rintro rfl
      exact absurd (h.debug.symm.trans hclosed) Bool.false_ne_true
    · intro hopen
      exact absurd (hopen.2.symm.trans hclosed) Bool.false_ne_true
    · exact ⟨rfl, .inl ⟨index, hlt, hclosed⟩⟩
  | none =>
    by_cases hlt : s.windowCount < maxWindows
    · dsimp only
      rw [if_pos hlt]
      refine .inl ⟨{ s with windowCount := s.windowCount + 1 }, s.windowCount,
        ⟨rfl, rfl, rfl, rfl, hlt, le_rfl,
        Nat.lt_succ_self _, h.count.1.ne', fun hopen => lt_irrefl _ hopen.1, ?_, ⟨rfl, .inr hlt⟩⟩,
          rfl⟩
      intro w hw
      unfold IsOpen
      dsimp only
      constructor
      · exact fun hopen => ⟨by omega, hopen.2⟩
      · exact fun hopen => ⟨by omega, hopen.2⟩
    · dsimp only
      rw [if_neg hlt]
      refine .inr ⟨?_, rfl⟩
      rintro ⟨-, ⟨i, hi, hclosed⟩ | hroom⟩
      · have hopen := List.find?_range_eq_none.mp hfree i hi
        rw [hclosed] at hopen
        exact Bool.false_ne_true hopen
      · exact hlt hroom

/-- What `windowmgr_add` does. -/
structure Added (s : WindowManager) (allocated : Bool) (r : WindowManager × Option ℕ) : Prop where
  inv : ∃ l, Inv [] l r.1
  window : ∀ w ∈ r.2, w ≠ 0 ∧ r.1.IsOpen w
  added : r.2.isSome = true ↔ s.CanAdd allocated
  count : r.1.windowCount ≤ s.windowCount + 1
  debug : r.1.windows 0 = s.windows 0

theorem Inv.windowmgrAdd (h : Inv [] l s) (allocated : Bool) :
    Added s allocated (s.windowmgrAdd allocated) := by
  unfold WindowManager.windowmgrAdd
  rcases h.newIndex with ⟨t, index, hslot, heq⟩ | ⟨hnone, heq⟩
  · rw [heq]
    dsimp only
    have hnot : index ∉ l := fun hmem => by
      rcases (h.mem index).mp hmem with hopen | hL
      · exact hslot.notOpen hopen
      · exact List.not_mem_nil hL
    have hdebug (closed : Bool) :
        Function.update t.windows index ⟨false, false, closed, [], none, none⟩ 0 = s.windows 0 := by
      rw [Function.update_of_ne hslot.ne_zero.symm, hslot.windows]
    unfold WindowManager.addAt
    cases allocated with
    | true =>
      have hnodup : (l ++ [index]).Nodup :=
        h.nodup.append (List.nodup_singleton _) (by simpa using hnot)
      have hlen : l.length < maxWindows := by
        have hsub : l ++ [index] ⊆ List.range t.windowCount := by
          intro w hw
          rw [List.mem_range]
          rcases List.mem_append.mp hw with hl | hi
          · have hne : w ≠ index := fun heq => hnot (heq ▸ hl)
            exact ((hslot.isOpen w hne).mpr (((h.mem w).mp hl).resolve_right List.not_mem_nil)).1
          · rw [List.mem_singleton.mp hi]
            exact hslot.lt
        have hle := (hnodup.subperm hsub).length_le
        rw [List.length_append, List.length_range] at hle
        exact hle.trans hslot.count
      have hnull :
          FrontList.firstNull (t.windowInit index).renderOrder maxWindows = some l.length := by
        have horder : (t.windowInit index).renderOrder = s.renderOrder := hslot.order
        rw [horder]
        exact h.order.firstNull_eq hlen
      rw [if_pos rfl, hnull]
      have hmem (w : ℕ) : w ∈ l ++ [index] ↔ w ∈ l ∨ w = index ∧ false = false := by simp
      have hhead : ∀ w ∈ s.selectedWindow, (l ++ [index]).head? = l.head? := by
        intro w hw
        rw [List.head?_append, (h.selected w hw).2]
        rfl
      have hinv := h.initialised hslot false (h.order.append hlen) hnodup hmem hhead
      constructor
      · rw [← hslot.order] at hinv
        exact ⟨l ++ [index], hinv⟩
      · intro w hw
        rw [← Option.some.inj hw]
        refine ⟨hslot.ne_zero, hslot.lt, ?_⟩
        change ((t.windowInit index).windows index).closed = false
        unfold windowInit
        rw [setWindow_self]
      · exact iff_of_true rfl hslot.canAdd
      · exact hslot.count_le
      · exact hdebug false
    | false =>
      rw [if_neg (by simp)]
      have heq' :
            ((t.windowInit index).setWindow index fun window => { window with closed := true })
          = { t with windows :=
            Function.update t.windows index ⟨false, false, true, [], none, none⟩ } := by
        unfold windowInit WindowManager.setWindow
        dsimp only
        rw [Function.update_self, Function.update_idem]
      have hmem (w : ℕ) : w ∈ l ↔ w ∈ l ∨ w = index ∧ true = false := by simp
      have hinv := h.initialised hslot true h.order h.nodup hmem fun _ _ => rfl
      rw [heq']
      constructor
      · rw [← hslot.order] at hinv
        exact ⟨l, hinv⟩
      · exact fun w hw => absurd hw (Option.not_mem_none w)
      · exact iff_of_false (by simp) fun hcan => by simpa using hcan.1
      · exact hslot.count_le
      · exact hdebug true
  · rw [heq]
    refine ⟨⟨l, h⟩, fun w hw => absurd hw (Option.not_mem_none w), ?_, Nat.le_succ _, rfl⟩
    refine iff_of_false (by simp) ?_
    rintro ⟨rfl, hroom⟩
    exact hnone ⟨rfl, hroom⟩

/-! ### Calls -/

/-- A child that is written over `child_count` is no change of the list. -/
theorem addChild_ok {p : WindowState} {window : ℕ} (h : p.overwritten = none) (hzero : window ≠ 0)
    (hchildren : some 0 ∉ p.children) :
      ∃ p', p.addChild window = .ok p' ∧ p'.closed = p.closed ∧ p'.active = p.active ∧
      some 0 ∉ p'.children := by
  unfold WindowState.addChild
  rw [if_neg (by rw [h]; exact Bool.false_ne_true)]
  split
  case isTrue =>
    refine ⟨_, rfl, rfl, rfl, ?_⟩
    rw [List.mem_append, List.mem_singleton]
    rintro (hold | hnew)
    · exact hchildren hold
    · exact hzero (Option.some.inj hnew).symm
  case isFalse => exact ⟨_, rfl, rfl, rfl, hchildren⟩

theorem Inv.linkChild (h : Inv L l s) {window parent : ℕ} (hzero : window ≠ 0)
    (hcount : (s.windows parent).overwritten = none) :
    ∃ s', s.linkChild window parent = .ok s' ∧ Inv L l s' ∧ (∀ w, s'.IsOpen w ↔ s.IsOpen w) := by
  obtain ⟨p, hadd, hclosed, hactive, hchildren⟩ := addChild_ok hcount hzero (h.children parent)
  have hparent := h.setWindow parent (f := fun _ => p) hclosed hactive hchildren
  unfold WindowManager.linkChild
  rw [hadd]
  refine ⟨_, rfl, hparent.setWindow window rfl rfl (hparent.children window), fun w => ?_⟩
  unfold IsOpen
  rw [setWindow_field WindowState.closed window rfl,
    setWindow_field WindowState.closed parent hclosed]
  rfl

/-- The debug window is minimised, and a popup says so. -/
theorem Inv.closeDebug (h : Inv [] l s) (depth : ℕ) (hcount : s.CanAdd (answers s.asked).allocated →
      (s.windows 0).overwritten = none) :
    ∃ s' l', WindowManager.windowClose answers (depth + 1) s 0 = .ok s' ∧ Inv [] l' s' := by
  have hopen : WindowManager.IsOpen { s with asked := s.asked + 1 } 0 := ⟨h.count.1, h.debug⟩
  obtain ⟨hsame, l₁, -, h₁⟩ := (h.setAsked (s.asked + 1)).windowMinimise hopen true
  have hadded := h₁.windowmgrAdd (answers s.asked).allocated
  unfold WindowManager.windowClose
  rw [if_neg (not_le.mpr h.count.1), if_neg (by rw [h.debug]; exact Bool.false_ne_true)]
  dsimp only
  rw [if_pos rfl]
  obtain ⟨⟨l₂, h₂⟩, hwindow, hcan, -, hdebug⟩ := hadded
  cases hr : (WindowManager.windowMinimise { s with asked := s.asked + 1 } 0 true).windowmgrAdd
      (answers s.asked).allocated with
  | mk t popup =>
  rw [hr] at h₂ hwindow hcan hdebug
  cases popup with
  | none => exact ⟨t, l₂, rfl, h₂⟩
  | some popup =>
    obtain ⟨hzero, hpopup⟩ := hwindow popup rfl
    have hcan' : s.CanAdd (answers s.asked).allocated := by
      have hcan₁ := hcan.mp rfl
      unfold CanAdd at hcan₁ ⊢
      rw [hsame.count] at hcan₁
      simp only [hsame.closed] at hcan₁
      exact hcan₁
    have hcount' : (t.windows 0).overwritten = none := by
      rw [hdebug]
      exact (congrArg (fun links => links.2.1) (hsame.links 0)).trans (hcount hcan')
    obtain ⟨s₃, heq₃, h₃, hopen₃⟩ := h₂.linkChild hzero hcount'
    obtain ⟨-, l₄, -, h₄⟩ := h₃.windowMinimise ((hopen₃ popup).mpr hpopup) false
    refine ⟨s₃.windowMinimise popup false, l₄, ?_, h₄⟩
    dsimp only
    rw [heq₃]
    rfl

/-- What one call preserves. -/
theorem Inv.call (h : Inv [] l s) {c : WindowCall} (hlegal : s.Legal c)
    (hkeeps : Keeps answers s c) :
    ∃ s' l', s.call answers c = .ok s' ∧ Inv [] l' s' := by
  cases c with
  | add allocated =>
    obtain ⟨l', h'⟩ := (h.windowmgrAdd allocated).inv
    exact ⟨_, l', rfl, h'⟩
  | close windowIndex =>
    unfold WindowManager.call
    dsimp only
    split
    case isTrue => exact ⟨s, l, rfl, h⟩
    case isFalse hneg =>
      unfold Keeps at hkeeps
      dsimp only at hkeeps
      by_cases hzero : windowIndex = 0
      · rw [if_pos hzero] at hkeeps
        rw [hzero]
        exact h.closeDebug _ hkeeps
      · rw [if_neg hzero] at hkeeps
        have hlen := h.length_le.trans h.count.2
        have hclose : Closes [] maxWindows (WindowManager.windowClose answers (maxWindows + 1)) :=
          closes_windowClose (maxWindows + 1) (Nat.lt_succ_self _)
        obtain ⟨s', heq, ⟨l', -, h'⟩, -⟩ := hclose ⟨⟨l, hlen, h⟩, hkeeps (by omega)⟩
          (show windowIndex.toNat ≠ 0 by omega)
        exact ⟨s', l', heq, h'⟩
  | minimise window minimise =>
    obtain ⟨-, l', -, h'⟩ := h.windowMinimise hlegal minimise
    exact ⟨_, l', rfl, h'⟩
  | focusSwap window =>
    obtain ⟨-, l', -, h'⟩ := h.focusSwap hlegal
    exact ⟨_, l', rfl, h'⟩
  | select index => exact ⟨_, _, rfl, h.select hlegal⟩
  | link window parent =>
    obtain ⟨s', heq, h', -⟩ := h.linkChild hlegal.2.1 hkeeps
    exact ⟨s', l, heq, h'⟩

theorem init_windows (w : ℕ) : init.windows w = ⟨decide (w = 0), false, false, [], none, none⟩ := by
  cases w with
  | zero => rfl
  | succ w => rfl

theorem init_inv : Inv [] [0] init := by
  constructor
  · decide
  · refine ⟨by decide, fun k _ => ?_⟩
    cases k with
    | zero => rfl
    | succ k => rfl
  · exact List.nodup_singleton 0
  · intro w
    unfold IsOpen
    rw [init_windows, List.mem_singleton]
    change w = 0 ↔ (w < 1 ∧ false = false) ∨ w ∈ []
    simp
  · exact fun w hw => absurd hw List.not_mem_nil
  · exact List.nodup_nil
  · intro w hw
    rw [← show 0 = w from Option.some.inj hw]
    exact ⟨⟨by decide, by rw [init_windows]⟩, rfl⟩
  · intro w
    rw [init_windows]
    change decide (w = 0) = true ↔ some 0 = some w
    rw [decide_eq_true_iff, Option.some.injEq, eq_comm]
  · rfl
  · intro w
    rw [init_windows]
    exact List.not_mem_nil
  · intro sel hsel
    rw [List.mem_singleton.mp hsel]
    rfl

/-- The windows are in order after every run of calls that do not use an overwritten
`child_count`. -/
theorem run_ordered (answers : ℕ → Answer) (calls : List WindowCall)
    (hcalls : Machine.Along (exec answers)
      (fun r c => ∀ s, r = .ok s → s.Legal c ∧ Keeps answers s c) (.ok init)
      calls) : ∃ s, (Machine.run (exec answers) (.ok init) calls).1 = .ok s ∧ s.Ordered := by
  have hrun := Machine.run_invariant_along (P := fun r => ∃ s l, r = .ok s ∧ Inv [] l s)
    ⟨init, [0], rfl, init_inv⟩ ?_ hcalls
  · obtain ⟨s, l, heq, h⟩ := hrun
    exact ⟨s, heq, h.ordered⟩
  · rintro r c ⟨s, l, rfl, h⟩ hc
    obtain ⟨hlegal, hkeeps⟩ := hc s rfl
    exact h.call hlegal hkeeps

/-- Framebuffers are given, every window closes at once, and no dialog ends a task. -/
def agreed : Answer := ⟨true, false, none, by simp⟩

theorem run_ordered_two :
    ∃ s, (Machine.run (exec fun _ => agreed) (.ok init) [.add true, .close 0]).1 = .ok s ∧
      s.Ordered := by
  apply run_ordered
  constructor
  · rintro s ⟨⟩
    exact ⟨trivial, trivial⟩
  · constructor
    · rintro s ⟨⟩
      refine ⟨trivial, fun _ => ?_⟩
      decide +kernel
    · trivial

/-- Every close of the debug window gives it another child. The pointer to the eleventh is in
`child_count`, and the twelfth is written to where that is an index of. -/
theorem not_ordered :
    ¬ ∀ (answers : ℕ → Answer) (calls : List WindowCall),
      Machine.Along (exec answers) (fun r c => ∀ s, r = .ok s → s.Legal c) (.ok init) calls →
      ∃ s, (Machine.run (exec answers) (.ok init) calls).1 = .ok s ∧ s.Ordered := by
  intro hall
  have hlegal : ∀ c ∈ List.replicate 12 (WindowCall.close 0),
        ∀ (r : Except Stop WindowManager) (s : WindowManager),
      r = .ok s → s.Legal c := by
    intro c hc r s _
    rw [List.eq_of_mem_replicate hc]
    trivial
  obtain ⟨s, hs, -⟩ := hall (fun _ => agreed) _ (Machine.along_of_always hlegal)
  have hfails :
      (Machine.run (exec fun _ => agreed) (.ok init) (List.replicate 12 (.close 0))).1.isOk =
      false := by
    decide +kernel
  rw [hs] at hfails
  exact absurd hfails (by simp [Except.isOk, Except.toBool])

/-- Eleven closes do not get that far. -/
example : (Machine.run (exec fun _ => agreed) (.ok init) (List.replicate 11 (.close 0))).1.isOk =
    true := by
  decide +kernel

end WindowManager

end X86Kernel.Gui
