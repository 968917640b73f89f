import X86Kernel.Lib.Ring

/-! The kernel's ring buffer, `kqueue.h`, and the list of elements that it holds. -/
namespace X86Kernel.Tasks

/-- `kqueue_t`. A pointer to an element is the number of its slot. -/
structure Kqueue (α : Type) where
  buffer : ℕ → α
  capacity : ℕ
  head : ℕ
  tail : ℕ

namespace Kqueue

variable {α : Type}

def count (q : Kqueue α) : ℕ := if q.tail < q.head then q.tail + 2 * q.capacity - q.head
  else q.tail - q.head

def empty (q : Kqueue α) : Bool := q.tail == q.head

def full (q : Kqueue α) : Bool := q.count == q.capacity

def slot (q : Kqueue α) (i : ℕ) : ℕ := if i ≥ q.capacity then i - q.capacity else i

def advance (q : Kqueue α) (i : ℕ) : ℕ := if i + 1 ≥ 2 * q.capacity then 0 else i + 1

def last (q : Kqueue α) : Option ℕ :=
  if q.empty then none else some (q.slot (if q.tail = 0 then 2 * q.capacity - 1 else q.tail - 1))

def peek (q : Kqueue α) : Option ℕ := if q.empty then none else some (q.slot q.head)

def drop (q : Kqueue α) : Kqueue α := { q with head := q.advance q.head }

def nth (q : Kqueue α) (n : ℕ) : ℕ :=
  q.slot (if q.head + n ≥ 2 * q.capacity then q.head + n - 2 * q.capacity else q.head + n)

def reserve (q : Kqueue α) : Option (ℕ × Kqueue α) :=
  if q.full then none else some (q.slot q.tail, { q with tail := q.advance q.tail })

/-- An assignment through a pointer to slot `i`. -/
def write (q : Kqueue α) (i : ℕ) (a : α) : Kqueue α :=
  { q with buffer := Function.update q.buffer i a }

def init (buffer : ℕ → α) (capacity : ℕ) : Kqueue α := ⟨buffer, capacity, 0, 0⟩

/-- Both ends are in the two rounds that they are counted in, and less than one round apart. -/
structure Ok (q : Kqueue α) : Prop where
  head_lt : q.head < 2 * q.capacity
  tail_lt : q.tail < 2 * q.capacity
  count_le : q.count ≤ q.capacity

/-- The elements, oldest first. -/
def toList (q : Kqueue α) : List α := Ring.window q.capacity q.buffer q.head q.count

@[simp] theorem length_toList (q : Kqueue α) : q.toList.length = q.count :=
  Ring.length_window _ _ _ _

variable {q : Kqueue α}

theorem slot_eq {i : ℕ} (h : i < 2 * q.capacity) : q.slot i = i % q.capacity := by
  unfold slot
  split_ifs with hi
  · rw [Nat.mod_eq_sub_mod hi, Nat.mod_eq_of_lt (by omega)]
  · rw [Nat.mod_eq_of_lt (by omega)]

theorem empty_iff (h : q.Ok) : q.empty = true ↔ q.count = 0 := by
  have h1 := h.head_lt
  have h2 := h.tail_lt
  unfold empty count
  rw [beq_iff_eq]
  split_ifs <;> omega

/-- The tail is one round behind the head, or none. -/
theorem tail_mod (h : q.Ok) : q.tail % q.capacity = (q.head + q.count) % q.capacity := by
  have h1 := h.head_lt
  unfold count
  split_ifs with hlt
  · rw [show q.head + (q.tail + 2 * q.capacity - q.head) = q.tail + q.capacity * 2 by omega,
      Nat.add_mul_mod_self_left]
  · rw [show q.head + (q.tail - q.head) = q.tail by omega]

theorem nth_eq (h : q.Ok) {n : ℕ} (hn : n < q.count) : q.nth n = (q.head + n) % q.capacity := by
  have h1 := h.head_lt
  have h3 := h.count_le
  unfold nth
  split_ifs with hge
  · rw [slot_eq (by omega)]
    conv_rhs => rw [show q.head + n = q.head + n - 2 * q.capacity + q.capacity * 2 by omega,
      Nat.add_mul_mod_self_left]
  · rw [slot_eq (by omega)]

theorem getElem_toList (h : q.Ok) {n : ℕ} (hn : n < q.toList.length) :
    q.toList[n] = q.buffer (q.nth n) := by
  rw [nth_eq h (by simpa using hn)]
  simp [toList, Ring.window]

theorem last_eq (h : q.Ok) : q.last = if q.count = 0 then none else some (q.nth (q.count - 1)) := by
  have h1 := h.head_lt
  have h2 := h.tail_lt
  have h3 := h.count_le
  unfold last
  by_cases he : q.count = 0
  · rw [if_pos ((empty_iff h).mpr he), if_pos he]
  · rw [if_neg (fun hh => he ((empty_iff h).mp hh)), if_neg he]
    unfold nth
    congr 2
    unfold count at he h3 ⊢
    split_ifs <;> split_ifs at he h3 <;> omega

theorem peek_eq (h : q.Ok) : q.peek = if q.count = 0 then none else some (q.nth 0) := by
  have h1 := h.head_lt
  unfold peek
  by_cases he : q.count = 0
  · rw [if_pos ((empty_iff h).mpr he), if_pos he]
  · rw [if_neg (fun hh => he ((empty_iff h).mp hh)), if_neg he]
    unfold nth
    rw [if_neg (by omega), Nat.add_zero]

theorem write_spec (h : q.Ok) {n : ℕ} (hn : n < q.count) (a : α) :
    (q.write (q.nth n) a).Ok ∧ (q.write (q.nth n) a).toList = q.toList.set n a := by
  refine ⟨⟨h.head_lt, h.tail_lt, h.count_le⟩, ?_⟩
  unfold toList
  rw [nth_eq h hn]
  exact Ring.window_set q.buffer q.head hn h.count_le a

theorem drop_spec (h : q.Ok) (hne : q.count ≠ 0) : q.drop.Ok ∧ q.drop.toList = q.toList.tail := by
  have h1 := h.head_lt
  have h2 := h.tail_lt
  have h3 := h.count_le
  have hcount : q.drop.count = q.count - 1 := by
    unfold drop count advance at *
    dsimp only
    split_ifs <;> split_ifs at hne <;> omega
  have hhead : q.drop.head < 2 * q.capacity := by
    show q.advance q.head < _
    unfold advance
    split_ifs <;> omega
  refine ⟨⟨hhead, h2, by show q.drop.count ≤ q.capacity; omega⟩, ?_⟩
  unfold toList
  rw [hcount]
  obtain ⟨n, hn⟩ := Nat.exists_eq_succ_of_ne_zero hne
  rw [hn, Nat.succ_eq_add_one, Ring.window_succ, List.tail_cons, Nat.add_sub_cancel]
  -- the head moves on by one slot, whichever round it is in
  have hmod : q.drop.head % q.capacity = (q.head + 1) % q.capacity := by
    show q.advance q.head % _ = _
    unfold advance
    split_ifs
    · rw [show q.head + 1 = q.capacity * 2 by omega, Nat.mul_mod_right, Nat.zero_mod]
    · rfl
  refine List.map_congr_left fun i _ => ?_
  show q.buffer ((q.drop.head + i) % q.capacity) = _
  rw [Nat.mod_add_mod, Nat.add_mod, hmod, ← Nat.add_mod]

theorem toList_of_peek_none (h : q.Ok) (hi : q.peek = none) : q.toList = [] := by
  rw [peek_eq h] at hi
  split_ifs at hi with hz
  exact List.eq_nil_of_length_eq_zero ((length_toList q).trans hz)

/-- The first element, and the others. -/
theorem drop_of_peek (h : q.Ok) {i : ℕ} (hi : q.peek = some i) :
    q.drop.Ok ∧ q.toList = q.buffer i :: q.drop.toList := by
  rw [peek_eq h] at hi
  split_ifs at hi with hz
  obtain rfl := Option.some.inj hi
  obtain ⟨hok, hlist⟩ := drop_spec h hz
  have hlen : 0 < q.toList.length := by rw [length_toList]; omega
  refine ⟨hok, ?_⟩
  rw [hlist, ← getElem_toList h hlen, ← List.drop_one]
  exact (List.cons_getElem_drop_succ (h := hlen)).symm

theorem reserve_none : q.reserve = none ↔ q.count = q.capacity := by
  unfold reserve
  split_ifs with hf
  · exact iff_of_true rfl (beq_iff_eq.mp hf)
  · exact iff_of_false (by simp) fun h => hf (beq_iff_eq.mpr h)

theorem reserve_spec (h : q.Ok) {i : ℕ} {q' : Kqueue α} (hr : q.reserve = some (i, q')) (a : α) :
    (q'.write i a).Ok ∧ (q'.write i a).toList = q.toList ++ [a] ∧
    (q'.write i a).capacity = q.capacity := by
  have h1 := h.head_lt
  have h2 := h.tail_lt
  have h3 := h.count_le
  unfold reserve at hr
  split_ifs at hr with hfull
  have hf : q.count ≠ q.capacity := fun h => hfull (beq_iff_eq.mpr h)
  obtain ⟨rfl, rfl⟩ := Prod.mk.inj (Option.some.inj hr)
  have hcount : (({ q with tail := q.advance q.tail } : Kqueue α).write (q.slot q.tail) a).count =
      q.count + 1 := by
    unfold write count advance at *
    dsimp only
    split_ifs <;> split_ifs at hf h3 <;> omega
  refine ⟨⟨h1, ?_, ?_⟩, ?_, rfl⟩
  · show q.advance q.tail < 2 * q.capacity
    unfold advance
    split_ifs <;> omega
  · rw [hcount]
    show q.count + 1 ≤ q.capacity
    omega
  · unfold toList
    rw [hcount, slot_eq h2, tail_mod h]
    exact Ring.window_push q.buffer q.head (lt_of_le_of_ne h3 hf) a

theorem init_spec (buffer : ℕ → α) {capacity : ℕ} (h : 0 < capacity) :
    (init buffer capacity).Ok ∧ (init buffer capacity).toList = [] :=
  ⟨⟨by show 0 < 2 * capacity; omega, by show 0 < 2 * capacity; omega, Nat.zero_le _⟩, rfl⟩

end Kqueue

end X86Kernel.Tasks
