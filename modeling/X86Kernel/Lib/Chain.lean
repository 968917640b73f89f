import Mathlib.Data.List.Induction
import Mathlib.Data.List.Nodup
import Mathlib.Logic.Function.Basic

/-! Singly linked chains stored in a map of successors: the cells reached from a head, the
walk that visits them, and the two changes a chain goes through, pushing and unlinking. -/
namespace Chain

variable {α : Type*} {next next' : α → Option α}

/-- `l` lists the cells reached from `cur`; the chain ends after the last of them. -/
def Linked (next : α → Option α) : Option α → List α → Prop
  | cur, [] => cur = none
  | cur, a :: l => cur = some a ∧ Linked next (next a) l

/-- The first `n` cells met from `cur`. -/
def walk (next : α → Option α) : ℕ → Option α → List α
  | 0, _ => []
  | _ + 1, none => []
  | n + 1, some a => a :: walk next n (next a)

theorem Linked.walk_eq {cur : Option α} {l : List α} (h : Linked next cur l) {n : ℕ}
    (hn : l.length ≤ n) : walk next n cur = l := by
  induction l generalizing cur n with
  | nil =>
    obtain rfl : cur = none := h
    cases n <;> rfl
  | cons a l ih =>
    obtain ⟨rfl, hl⟩ := h
    cases n with
    | zero => simp at hn
    | succ n =>
      rw [walk, ih hl (by simpa using hn)]

theorem Linked.head_eq {cur : Option α} {l : List α} (h : Linked next cur l) : cur = l.head? := by
  cases l with
  | nil => exact h
  | cons a l => exact h.1

theorem Linked.unique {cur : Option α} {l m : List α} (hl : Linked next cur l)
    (hm : Linked next cur m) : l = m := by
  have h1 := hl.walk_eq (n := max l.length m.length) (Nat.le_max_left _ _)
  have h2 := hm.walk_eq (n := max l.length m.length) (Nat.le_max_right _ _)
  exact h1.symm.trans h2

theorem Linked.congr {cur : Option α} {l : List α} (h : Linked next cur l)
    (heq : ∀ a ∈ l, next' a = next a) : Linked next' cur l := by
  induction l generalizing cur with
  | nil => exact h
  | cons a l ih =>
    refine ⟨h.1, ?_⟩
    rw [heq a List.mem_cons_self]
    exact ih h.2 fun b hb => heq b (List.mem_cons_of_mem a hb)

theorem Linked.suffix {cur : Option α} {l m : List α} {a : α} (h : Linked next cur (l ++ a :: m)) :
    Linked next (some a) (a :: m) := by
  induction l generalizing cur with
  | nil =>
    obtain ⟨rfl, hm⟩ := h
    exact ⟨rfl, hm⟩
  | cons b l ih => exact ih h.2

/-- A chain up to `a` goes on as the chain from `a` does. -/
theorem Linked.join {cur : Option α} {l m : List α} {a : α} (h : Linked next cur (l ++ [a]))
    (heq : ∀ b ∈ l, next' b = next b) (hm : Linked next' (some a) (a :: m)) :
      Linked next' cur (l ++ a :: m) := by
  induction l generalizing cur with
  | nil => exact ⟨h.1, hm.2⟩
  | cons b l ih =>
    refine ⟨h.1, ?_⟩
    rw [heq b List.mem_cons_self]
    exact ih h.2 fun c hc => heq c (List.mem_cons_of_mem b hc)

/-- A chain that goes on in another way from `a`. -/
theorem Linked.graft {cur : Option α} {l m m' : List α} {a : α} (h : Linked next cur (l ++ a :: m))
    (heq : ∀ b ∈ l, next' b = next b) (hm : Linked next' (some a) (a :: m')) :
      Linked next' cur (l ++ a :: m') := by
  induction l generalizing cur with
  | nil => exact ⟨h.1, hm.2⟩
  | cons b l ih =>
    refine ⟨h.1, ?_⟩
    rw [heq b List.mem_cons_self]
    exact ih h.2 fun c hc => heq c (List.mem_cons_of_mem b hc)

/-- A chain that is made to end at `a`. -/
theorem Linked.cut {cur : Option α} {l m : List α} {a : α} (h : Linked next cur (l ++ a :: m))
    (heq : ∀ b ∈ l, next' b = next b) (ha : next' a = none) : Linked next' cur (l ++ [a]) := by
  induction l generalizing cur with
  | nil => exact ⟨h.1, ha⟩
  | cons b l ih =>
    refine ⟨h.1, ?_⟩
    rw [heq b List.mem_cons_self]
    exact ih h.2 fun c hc => heq c (List.mem_cons_of_mem b hc)

/-- A chain that ends has no cycle. -/
theorem Linked.nodup {cur : Option α} {l : List α} (h : Linked next cur l) : l.Nodup := by
  induction l generalizing cur with
  | nil => exact List.nodup_nil
  | cons a l ih =>
    refine List.nodup_cons.mpr ⟨fun ha => ?_, ih h.2⟩
    obtain ⟨l₁, l₂, hsplit⟩ := List.append_of_mem ha
    have hlong : Linked next (some a) (a :: l) := ⟨rfl, h.2⟩
    have hshort : Linked next (some a) (a :: l₂) := Linked.suffix (hsplit ▸ h.2)
    have hlen := congrArg List.length (hlong.unique hshort)
    rw [hsplit] at hlen
    simp at hlen
    omega

variable [DecidableEq α]

theorem Linked.push {cur : Option α} {l : List α} (h : Linked next cur l) {a : α} (ha : a ∉ l) :
    Linked (Function.update next a cur) (some a) (a :: l) := by
  refine ⟨rfl, ?_⟩
  rw [Function.update_self]
  refine h.congr fun b hb => Function.update_of_ne ?_ _ _
  rintro rfl
  exact ha hb

/-- The loop that looks for the cell before `target` and bends its successor past it. -/
def unlink (next : α → Option α) (target : α) : ℕ → α → α → Option α
  | 0, _ => next
  | n + 1, prev =>
    match next prev with
    | none => next
    | some cur =>
      if cur = target then Function.update next prev (next target) else unlink next target n cur

theorem Linked.unlink {target prev : α} {l : List α} (h : Linked next (some prev) (prev :: l))
    (hne : prev ≠ target) {n : ℕ} (hn : l.length ≤ n) :
    Linked (unlink next target n prev) (some prev) (prev :: l.erase target) ∧
      ∀ a, a ∉ prev :: l → Chain.unlink next target n prev a = next a := by
  induction l generalizing prev n with
  | nil =>
    have hend : next prev = none := h.2
    cases n with
    | zero => exact ⟨h, fun _ _ => rfl⟩
    | succ n =>
      simp only [Chain.unlink, hend, List.erase_nil, implies_true, and_true]
      exact h
  | cons b l ih =>
    obtain ⟨hb, hl⟩ := h.2
    have hnd : (prev :: b :: l).Nodup := h.nodup
    cases n with
    | zero => simp at hn
    | succ n =>
      simp only [Chain.unlink, hb]
      by_cases hbt : b = target
      · subst hbt
        rw [if_pos rfl, List.erase_cons_head]
        refine ⟨⟨rfl, ?_⟩, fun a ha => ?_⟩
        · rw [Function.update_self]
          refine hl.congr fun a ha => Function.update_of_ne ?_ _ _
          rintro rfl
          exact (List.nodup_cons.mp hnd).1 (List.mem_cons_of_mem _ ha)
        · refine Function.update_of_ne ?_ _ _
          rintro rfl
          exact ha List.mem_cons_self
      · rw [if_neg hbt, List.erase_cons_tail (by simpa using hbt)]
        have hstart : Linked next (some b) (b :: l) := ⟨rfl, hl⟩
        obtain ⟨h1, h2⟩ := ih hstart hbt (n := n) (by simpa using hn)
        refine ⟨⟨rfl, ?_⟩, fun a ha => h2 a fun hm => ha (List.mem_cons_of_mem _ hm)⟩
        rw [h2 prev (List.nodup_cons.mp hnd).1, hb]
        exact h1

/-- A cell is put behind the last one. -/
theorem Linked.snoc {cur : Option α} {l : List α} {p a : α} (h : Linked next cur (l ++ [p]))
    (ha : a ∉ l ++ [p])
    (hend : next a = none) : Linked (Function.update next p (some a)) cur (l ++ [p, a]) := by
  induction l generalizing cur with
  | nil =>
    have hne : a ≠ p := by
      rintro rfl
      exact ha (by simp)
    refine ⟨h.1, ?_, ?_⟩
    · rw [Function.update_self]
    · rw [Function.update_of_ne hne]
      exact hend
  | cons b l ih =>
    have hne : b ≠ p := by
      rintro rfl
      exact (List.nodup_cons.mp h.nodup).1 (by simp)
    refine ⟨h.1, ?_⟩
    rw [Function.update_of_ne hne]
    exact ih h.2 fun hm => ha (List.mem_cons_of_mem _ hm)

/-- The loop that looks for `target` and keeps the cell before it. -/
def search (next : α → Option α) (target : α) : ℕ → Option α → Option α → Option (Option α)
  | 0, _, _ => none
  | _ + 1, _, none => none
  | n + 1, prev, some cur =>
    if cur = target then some prev else search next target n (some cur) (next cur)

theorem Linked.search_eq {target : α} {cur : Option α} {l₁ l₂ : List α}
    (h : Linked next cur (l₁ ++ target :: l₂)) (prev : Option α) {n : ℕ} (hn : l₁.length < n) :
    search next target n prev cur = some (l₁.getLast?.or prev) := by
  induction l₁ generalizing cur prev n with
  | nil =>
    obtain ⟨rfl, -⟩ := h
    cases n with
    | zero => simp at hn
    | succ n => simp [search]
  | cons b l₁ ih =>
    have hne : b ≠ target := by
      rintro rfl
      exact (List.nodup_cons.mp h.nodup).1 (by simp)
    obtain ⟨rfl, hl⟩ := h
    cases n with
    | zero => simp at hn
    | succ n =>
      rw [search, if_neg hne, ih hl _ (by simpa using hn), List.getLast?_cons]
      cases l₁.getLast? <;> rfl

/-- The cell after `prev`, or the head when there is none, gives way to the one behind `target`. -/
def bypass (next : α → Option α) (head : Option α) (target : α) :
    Option α → (α → Option α) × Option α
  | none => (next, next target)
  | some prev => (Function.update next prev (next target), head)

theorem Linked.skip {target p : α} {cur : Option α} {l l₂ : List α}
    (h : Linked next cur (l ++ p :: target :: l₂)) :
    Linked (Function.update next p (next target)) cur (l ++ p :: l₂) := by
  induction l generalizing cur with
  | nil =>
    have hnd : (p :: target :: l₂).Nodup := h.nodup
    obtain ⟨hp, ht, hl⟩ := h
    refine ⟨hp, ?_⟩
    rw [Function.update_self]
    refine hl.congr fun a ha => Function.update_of_ne ?_ _ _
    rintro rfl
    exact (List.nodup_cons.mp hnd).1 (List.mem_cons_of_mem _ ha)
  | cons b l ih =>
    have hne : b ≠ p := by
      rintro rfl
      exact (List.nodup_cons.mp h.nodup).1 (by simp)
    refine ⟨h.1, ?_⟩
    rw [Function.update_of_ne hne]
    exact ih h.2

theorem Linked.bypass {target : α} {cur : Option α} {l₁ l₂ : List α}
    (h : Linked next cur (l₁ ++ target :: l₂)) :
    Linked (bypass next cur target l₁.getLast?).1 (bypass next cur target l₁.getLast?).2
      (l₁ ++ l₂) ∧
      ∀ a, a ∉ l₁ → (Chain.bypass next cur target l₁.getLast?).1 a = next a := by
  cases l₁ using List.reverseRecOn with
  | nil =>
    rw [List.nil_append] at h
    exact ⟨h.2, fun _ _ => rfl⟩
  | append_singleton l p =>
    rw [List.getLast?_concat]
    refine ⟨?_, fun a ha => Function.update_of_ne (by rintro rfl; exact ha (by simp)) _ _⟩
    rw [List.append_assoc] at h ⊢
    exact h.skip

end Chain
