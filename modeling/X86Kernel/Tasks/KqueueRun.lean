import X86Kernel.Lib.Run
import X86Kernel.Lib.Slice
import X86Kernel.Mem.HeapRun
import X86Kernel.Tasks.Kqueue

/-! The ring buffer of `kqueue.h` on machine integers and bytes: as long as no position overflows, a
bounded list. -/
namespace X86Kernel.Tasks

open Mem (int32 int32_of_bounds int32_eq)
open Slice (slice)

/-- `kqueue_t`, with its positions as `int`s and its buffer as an address. -/
structure IntQueue where
  buffer : ℕ
  capacity : ℤ
  elemSize : ℤ
  head : ℤ
  tail : ℤ
deriving DecidableEq

/-- The bytes of an element. -/
abbrev Elem := List UInt8

namespace IntQueue

def kqueueCount (q : IntQueue) : ℤ :=
  let n := int32 (q.tail - q.head)
  if n < 0 then int32 (n + int32 (2 * q.capacity)) else n

def kqueueEmpty (q : IntQueue) : Bool := q.tail == q.head

def kqueueFull (q : IntQueue) : Bool := q.kqueueCount == q.capacity

def kqueueSlot (q : IntQueue) (i : ℤ) : ℤ := if i ≥ q.capacity then int32 (i - q.capacity) else i

def kqueueAdvance (q : IntQueue) (i : ℤ) : ℤ :=
  let i := int32 (i + 1)
  if i ≥ int32 (2 * q.capacity) then 0 else i

/-- Pointers have 32 bits. -/
def kqueueGet (q : IntQueue) (i : ℤ) : ℕ :=
  ((q.buffer + int32 (q.kqueueSlot i * q.elemSize)) % 2 ^ 32).toNat

def kqueueLast (q : IntQueue) : Option ℕ :=
  if q.kqueueEmpty then none
  else
    let i := if q.tail = 0 then int32 (int32 (2 * q.capacity) - 1) else int32 (q.tail - 1)
    some (q.kqueueGet i)

def kqueuePeek (q : IntQueue) : Option ℕ :=
  if q.kqueueEmpty then none else some (q.kqueueGet q.head)

def kqueueDrop (q : IntQueue) : IntQueue := { q with head := q.kqueueAdvance q.head }

def kqueueAt (q : IntQueue) (n : ℤ) : ℕ :=
  let i := int32 (q.head + n)
  let i := if i ≥ int32 (2 * q.capacity) then int32 (i - int32 (2 * q.capacity)) else i
  q.kqueueGet i

def kqueueReserve (q : IntQueue) : Option ℕ × IntQueue :=
  if q.kqueueFull then (none, q)
  else (some (q.kqueueGet q.tail), { q with tail := q.kqueueAdvance q.tail })

/-- The slot that `elem` is copied to, `none` when the queue is full, and the memory afterwards. -/
def kqueuePush (mem : ℕ → UInt8) (q : IntQueue) (elem : Elem) : Option ℕ × (ℕ → UInt8) × IntQueue :=
  match q.kqueueReserve with
  | (none, q) => (none, mem, q)
  | (some slot, q) => (some slot, Ring.writeRun mem slot elem, q)

/-- The slot that the element is copied from, `none` when the queue is empty. -/
def kqueuePop (q : IntQueue) : Option ℕ × IntQueue :=
  if q.kqueueEmpty then (none, q)
  else (some (q.kqueueGet q.head), { q with head := q.kqueueAdvance q.head })

def kqueueInit (buffer : ℕ) (capacity elemSize : ℤ) : IntQueue := ⟨buffer, capacity, elemSize, 0, 0⟩

/-! ### The queue without machine integers -/

/-- A queue whose doubled capacity is an `int` and whose buffer is in memory, between two calls. -/
structure Fits (q : IntQueue) : Prop where
  capacity : 1 ≤ q.capacity ∧ 2 * q.capacity < 2 ^ 31
  elemSize : 0 ≤ q.elemSize
  buffer : q.buffer < 2 ^ 32 ∧ q.buffer + q.capacity * q.elemSize ≤ 2 ^ 32
  head : 0 ≤ q.head ∧ q.head < 2 * q.capacity
  tail : 0 ≤ q.tail ∧ q.tail < 2 * q.capacity

/-- The address of a slot. -/
def address (q : IntQueue) (slot : ℕ) : ℕ := q.buffer + slot * q.elemSize.toNat

def toKqueue (mem : ℕ → UInt8) (q : IntQueue) : Kqueue Elem :=
  ⟨fun slot => slice mem (q.address slot) q.elemSize.toNat, q.capacity.toNat, q.head.toNat,
    q.tail.toNat⟩

variable (mem : ℕ → UInt8) {q : IntQueue}

theorem Fits.double (h : q.Fits) : int32 (2 * q.capacity) = 2 * q.capacity := by
  obtain ⟨hpos, hlt⟩ := h.capacity
  exact int32_of_bounds (by omega) hlt

theorem Fits.count_eq (h : q.Fits) : q.kqueueCount = (q.toKqueue mem).count := by
  have hdouble := h.double
  obtain ⟨hcapacity, -, -, hhead, htail⟩ := h
  unfold kqueueCount toKqueue Kqueue.count
  dsimp only
  rw [hdouble, int32_of_bounds (by omega) (by omega)]
  split_ifs <;> first | omega | (rw [int32_of_bounds (by omega) (by omega)]; omega)

theorem Fits.empty_eq (h : q.Fits) : q.kqueueEmpty = (q.toKqueue mem).empty := by
  obtain ⟨-, -, -, hhead, htail⟩ := h
  unfold kqueueEmpty Kqueue.empty
  rw [Bool.eq_iff_iff, beq_iff_eq, beq_iff_eq]
  change q.tail = q.head ↔ q.tail.toNat = q.head.toNat
  omega

theorem Fits.full_eq (h : q.Fits) : q.kqueueFull = (q.toKqueue mem).full := by
  have hcount := h.count_eq mem
  obtain ⟨hcapacity, -⟩ := h
  unfold kqueueFull Kqueue.full
  rw [Bool.eq_iff_iff, beq_iff_eq, beq_iff_eq, hcount]
  change _ ↔ _ = q.capacity.toNat
  omega

theorem Fits.slot_eq (h : q.Fits) {i : ℕ} (hi : (i : ℤ) < 2 * q.capacity) :
    q.kqueueSlot i = (q.toKqueue mem).slot i := by
  obtain ⟨hcapacity, -⟩ := h
  unfold kqueueSlot toKqueue Kqueue.slot
  dsimp only
  split_ifs <;> first | omega | (rw [int32_of_bounds (by omega) (by omega)]; omega)

theorem Fits.advance_eq (h : q.Fits) {i : ℕ} (hi : (i : ℤ) < 2 * q.capacity) :
    q.kqueueAdvance i = (q.toKqueue mem).advance i := by
  have hdouble := h.double
  obtain ⟨hcapacity, -⟩ := h
  unfold kqueueAdvance toKqueue Kqueue.advance
  dsimp only
  rw [hdouble, int32_of_bounds (by omega) (by omega)]
  split_ifs <;> omega

theorem slot_lt {k : Kqueue Elem} {i : ℕ} (hi : i < 2 * k.capacity) : k.slot i < k.capacity := by
  unfold Kqueue.slot
  split_ifs <;> omega

/-- Pointer arithmetic with an offset that is in memory but perhaps not an `int`. -/
theorem pointer_eq {buffer offset : ℕ} (h : buffer + offset < 2 ^ 32) :
    (((buffer : ℤ) + int32 offset) % 2 ^ 32).toNat = buffer + offset := by
  rw [int32_eq]
  omega

theorem Fits.address_lt (h : q.Fits) {slot : ℕ} (hslot : slot < q.capacity.toNat) :
    q.address slot < 2 ^ 32 := by
  obtain ⟨hcapacity, helem, ⟨hbuffer, hend⟩, -⟩ := h
  have hle : (slot + 1) * q.elemSize.toNat ≤ q.capacity.toNat * q.elemSize.toNat :=
    Nat.mul_le_mul_right _ (by omega)
  have hproduct : ((q.capacity.toNat * q.elemSize.toNat : ℕ) : ℤ) = q.capacity * q.elemSize := by
    push_cast
    rw [Int.toNat_of_nonneg (by omega), Int.toNat_of_nonneg helem]
  rw [Nat.add_mul, Nat.one_mul] at hle
  rw [← hproduct] at hend
  unfold address
  by_cases hzero : q.elemSize.toNat = 0
  · rw [hzero, Nat.mul_zero]
    exact hbuffer
  · omega

theorem Fits.get_eq (h : q.Fits) {i : ℕ} (hi : (i : ℤ) < 2 * q.capacity) :
    q.kqueueGet i = q.address ((q.toKqueue mem).slot i) := by
  have hcapacity := h.capacity
  have hslot : (q.toKqueue mem).slot i < q.capacity.toNat := by
    apply slot_lt
    change i < 2 * q.capacity.toNat
    omega
  have hproduct : ((q.toKqueue mem).slot i : ℤ) * q.elemSize =
      ((q.toKqueue mem).slot i * q.elemSize.toNat : ℕ) := by
    push_cast
    rw [Int.toNat_of_nonneg h.elemSize]
  unfold kqueueGet
  rw [h.slot_eq mem hi, hproduct]
  exact pointer_eq (h.address_lt hslot)

theorem slice_writeRun_self (a : ℕ) (elem : Elem) :
    slice (Ring.writeRun mem a elem) a elem.length = elem := by
  apply List.ext_getElem (by simp)
  intro k hk hk'
  simp only [slice, List.getElem_map, List.getElem_range]
  exact Ring.writeRun_add mem a hk'

/-- Bytes written to a slot are an element written to it. -/
theorem toKqueue_write {elem : Elem} (helem : elem.length = q.elemSize.toNat) (slot : ℕ) :
    q.toKqueue (Ring.writeRun mem (q.address slot) elem) = (q.toKqueue mem).write slot elem := by
  unfold toKqueue Kqueue.write
  congr 1
  funext i
  rw [Function.update_apply]
  split_ifs with hi
  · rw [hi, ← helem]
    exact slice_writeRun_self mem _ elem
  · apply Slice.slice_congr
    intro k hk
    apply Ring.writeRun_of_not_mem
    unfold address
    rw [helem]
    -- two different slots lie a whole element apart
    rcases Nat.lt_or_gt_of_ne hi with hlt | hgt
    · have := Nat.mul_le_mul_right q.elemSize.toNat (show i + 1 ≤ slot by omega)
      rw [Nat.add_mul] at this
      omega
    · have := Nat.mul_le_mul_right q.elemSize.toNat (show slot + 1 ≤ i by omega)
      rw [Nat.add_mul] at this
      omega

/-- The pointer that `kqueue_at` gives, unless its sum overflows. -/
theorem Fits.at_eq (h : q.Fits) {n : ℕ} (hn : n < (q.toKqueue mem).count)
    (hcount : (q.toKqueue mem).Ok)
    (hsum : q.head + n < 2 ^ 31) : q.kqueueAt n = q.address ((q.toKqueue mem).nth n) := by
  have hdouble := h.double
  have hle := hcount.count_le
  have hcapacity := h.capacity
  have hhead := h.head
  change _ ≤ q.capacity.toNat at hle
  unfold kqueueAt Kqueue.nth
  dsimp only
  rw [hdouble, int32_of_bounds (by omega) hsum]
  change _ = q.address (Kqueue.slot _ (if q.head.toNat + n ≥ 2 * q.capacity.toNat then
    q.head.toNat + n - 2 * q.capacity.toNat else q.head.toNat + n))
  split_ifs with hge hge'
  · rw [int32_of_bounds (by omega) (by omega), ← h.get_eq mem (by omega)]
    congr 1
    omega
  · omega
  · omega
  · rw [← h.get_eq mem (by omega)]
    congr 1
    omega

theorem Fits.last_eq (h : q.Fits) : q.kqueueLast = (q.toKqueue mem).last.map q.address := by
  have hdouble := h.double
  have hcapacity := h.capacity
  have htail := h.tail
  unfold kqueueLast Kqueue.last
  rw [← h.empty_eq mem, hdouble]
  cases q.kqueueEmpty
  · rw [if_neg Bool.false_ne_true, if_neg Bool.false_ne_true, Option.map_some]
    change some (q.kqueueGet (if q.tail = 0 then _ else _)) = some (q.address (Kqueue.slot _
      (if q.tail.toNat = 0 then 2 * q.capacity.toNat - 1 else q.tail.toNat - 1)))
    split_ifs
    · rw [int32_of_bounds (by omega) (by omega), ← h.get_eq mem (by omega)]
      congr 2
      omega
    · omega
    · omega
    · rw [int32_of_bounds (by omega) (by omega), ← h.get_eq mem (by omega)]
      congr 2
      omega
  · rfl

theorem Fits.head_get_eq (h : q.Fits) :
    q.kqueueGet q.head = q.address ((q.toKqueue mem).slot q.head.toNat) := by
  have hhead := h.head
  rw [← h.get_eq mem (by omega), Int.toNat_of_nonneg hhead.1]

theorem Fits.peek_eq (h : q.Fits) : q.kqueuePeek = (q.toKqueue mem).peek.map q.address := by
  unfold kqueuePeek Kqueue.peek
  rw [← h.empty_eq mem, h.head_get_eq mem]
  cases q.kqueueEmpty <;> rfl

theorem Fits.drop_eq (h : q.Fits) : q.kqueueDrop.toKqueue mem = (q.toKqueue mem).drop := by
  have hhead := h.head
  have hadvance := h.advance_eq mem (show (q.head.toNat : ℤ) < _ by omega)
  rw [Int.toNat_of_nonneg hhead.1] at hadvance
  unfold kqueueDrop Kqueue.drop
  rw [hadvance]
  rfl

theorem advance_lt {k : Kqueue Elem} (hk : 0 < k.capacity) (i : ℕ) :
    k.advance i < 2 * k.capacity := by
  unfold Kqueue.advance
  split_ifs <;> omega

theorem Fits.advance_bounds (h : q.Fits) {i : ℤ} (hi : 0 ≤ i ∧ i < 2 * q.capacity) :
    0 ≤ q.kqueueAdvance i ∧ q.kqueueAdvance i < 2 * q.capacity := by
  have hcapacity := h.capacity
  have hadvance := h.advance_eq (fun _ => 0) (show (i.toNat : ℤ) < _ by omega)
  have hlt : (q.toKqueue fun _ => 0).advance i.toNat < 2 * q.capacity.toNat := by
    apply advance_lt
    change 0 < q.capacity.toNat
    omega
  rw [Int.toNat_of_nonneg hi.1] at hadvance
  omega

theorem Fits.drop (h : q.Fits) : q.kqueueDrop.Fits :=
  ⟨h.capacity, h.elemSize, h.buffer, h.advance_bounds h.head, h.tail⟩

/-- The queue after a slot is claimed at its tail. -/
def claimed (q : IntQueue) : IntQueue := { q with tail := q.kqueueAdvance q.tail }

theorem Fits.claimed (h : q.Fits) : q.claimed.Fits :=
  ⟨h.capacity, h.elemSize, h.buffer, h.head, h.advance_bounds h.tail⟩

theorem Fits.reserve_eq (h : q.Fits) : (q.toKqueue mem).reserve =
    if q.kqueueFull then none
    else some ((q.toKqueue mem).slot q.tail.toNat, q.claimed.toKqueue mem) := by
  have htail := h.tail
  have hadvance := h.advance_eq mem (show (q.tail.toNat : ℤ) < _ by omega)
  rw [Int.toNat_of_nonneg htail.1] at hadvance
  unfold Kqueue.reserve IntQueue.claimed
  rw [← h.full_eq mem, hadvance]
  rfl

end IntQueue

/-! ### The queue against a bounded list -/

/-- The calls of the users of a queue. What they write through a pointer they get is part of the
call. -/
inductive QueueCall where
  | push (elem : Elem)
  | pop
  | reserve (elem : Elem)
  | store (n : ℕ) (elem : Elem)
  | drop
  | peek
  | last
  | nth (n : ℕ)
  | count
  | full
  | empty

inductive QueueAnswer where
  | num (v : ℤ)
  | flag (b : Bool)
  | elem (e : Option Elem)
  | done

structure QueueState where
  mem : ℕ → UInt8
  queue : IntQueue

namespace QueueState

/-- The element behind a pointer. -/
def read (s : QueueState) (pointer : ℕ) : Elem := slice s.mem pointer s.queue.elemSize.toNat

def contents (s : QueueState) : List Elem := (s.queue.toKqueue s.mem).toList

/-- Every call answers with a value, and with the pointer that is read, written or given out. -/
def exec (s : QueueState) : QueueCall → QueueState × QueueAnswer × Option ℕ
  | .push elem =>
    let (slot, mem, queue) := IntQueue.kqueuePush s.mem s.queue elem
    (⟨mem, queue⟩, .flag slot.isSome, slot)
  | .pop =>
    let (slot, queue) := s.queue.kqueuePop
    (⟨s.mem, queue⟩, .elem (slot.map s.read), slot)
  | .reserve elem =>
    match s.queue.kqueueReserve with
    | (none, queue) => (⟨s.mem, queue⟩, .flag false, none)
    | (some slot, queue) => (⟨Ring.writeRun s.mem slot elem, queue⟩, .flag true, some slot)
  | .store n elem =>
    let slot := s.queue.kqueueAt n
    (⟨Ring.writeRun s.mem slot elem, s.queue⟩, .done, some slot)
  | .drop => (⟨s.mem, s.queue.kqueueDrop⟩, .done, none)
  | .peek => (s, .elem (s.queue.kqueuePeek.map s.read), s.queue.kqueuePeek)
  | .last => (s, .elem (s.queue.kqueueLast.map s.read), s.queue.kqueueLast)
  | .nth n => (s, .elem (some (s.read (s.queue.kqueueAt n))), some (s.queue.kqueueAt n))
  | .count => (s, .num s.queue.kqueueCount, none)
  | .full => (s, .flag s.queue.kqueueFull, none)
  | .empty => (s, .flag s.queue.kqueueEmpty, none)

end QueueState

/-- A list of at most `capacity` elements, oldest first. -/
def fifo (capacity : ℕ) (l : List Elem) : QueueCall → List Elem × QueueAnswer
  | .push elem => if l.length = capacity then (l, .flag false) else (l ++ [elem], .flag true)
  | .pop => (l.tail, .elem l.head?)
  | .reserve elem => if l.length = capacity then (l, .flag false) else (l ++ [elem], .flag true)
  | .store n elem => (l.set n elem, .done)
  | .drop => (l.tail, .done)
  | .peek => (l, .elem l.head?)
  | .last => (l, .elem l.getLast?)
  | .nth n => (l, .elem l[n]?)
  | .count => (l, .num l.length)
  | .full => (l, .flag (l.length = capacity))
  | .empty => (l, .flag l.isEmpty)

/-- Elements have the size of the queue's, `kqueue_drop` is called on a queue that is not empty, and
`kqueue_at` with an index below the count. -/
def Legal (s : QueueState) : QueueCall → Prop
  | .push elem => elem.length = s.queue.elemSize.toNat
  | .reserve elem => elem.length = s.queue.elemSize.toNat
  | .store n elem => n < s.queue.kqueueCount ∧ elem.length = s.queue.elemSize.toNat
  | .drop => s.queue.kqueueEmpty = false
  | .nth n => n < s.queue.kqueueCount
  | _ => True

/-- The sum that `kqueue_at` computes is an `int`. -/
def SumFits (s : QueueState) : QueueCall → Prop
  | .store n _ => s.queue.head + n < 2 ^ 31
  | .nth n => s.queue.head + n < 2 ^ 31
  | _ => True

namespace QueueState

structure Ok (s : QueueState) : Prop where
  fits : s.queue.Fits
  queue : (s.queue.toKqueue s.mem).Ok

/-- A pointer to a slot of the buffer. -/
def InBuffer (q : IntQueue) (pointer : ℕ) : Prop :=
  ∃ slot < q.capacity.toNat, pointer = q.address slot

/-- A call that a list of the same elements would have answered alike. -/
structure Agrees (s : QueueState) (call : QueueCall) : Prop where
  ok : (s.exec call).1.Ok
  buffer : (s.exec call).1.queue.buffer = s.queue.buffer
  capacity : (s.exec call).1.queue.capacity = s.queue.capacity
  elemSize : (s.exec call).1.queue.elemSize = s.queue.elemSize
  contents : (s.exec call).1.contents = (fifo s.queue.capacity.toNat s.contents call).1
  answer : (s.exec call).2.1 = (fifo s.queue.capacity.toNat s.contents call).2
  inBuffer : ∀ pointer ∈ (s.exec call).2.2, InBuffer s.queue pointer

variable {s : QueueState}

theorem Ok.length_contents (h : s.Ok) : s.queue.kqueueCount = s.contents.length := by
  rw [h.fits.count_eq s.mem]
  congr 1
  exact (Kqueue.length_toList _).symm

theorem Ok.nth_inBuffer (h : s.Ok) {n : ℕ} (hn : n < s.contents.length) :
    InBuffer s.queue (s.queue.address ((s.queue.toKqueue s.mem).nth n)) := by
  have hcapacity := h.fits.capacity
  refine ⟨_, ?_, rfl⟩
  rw [Kqueue.nth_eq h.queue (by simpa [contents] using hn)]
  apply Nat.mod_lt
  change 0 < s.queue.capacity.toNat
  omega

theorem Ok.read_nth (h : s.Ok) {n : ℕ} (hn : n < s.contents.length) :
    s.read (s.queue.address ((s.queue.toKqueue s.mem).nth n)) = s.contents[n] :=
  (Kqueue.getElem_toList h.queue hn).symm

theorem Ok.eq_nil_iff (h : s.Ok) : s.queue.kqueueEmpty = true ↔ s.contents = [] := by
  rw [h.fits.empty_eq s.mem, Kqueue.empty_iff h.queue, ← List.length_eq_zero_iff, contents,
    Kqueue.length_toList]

theorem count_eq_length (s : QueueState) : (s.queue.toKqueue s.mem).count = s.contents.length :=
  (Kqueue.length_toList _).symm

/-- A pointer to an element of a queue that is not empty, and what is behind it. -/
theorem Ok.pointer (h : s.Ok) {pointer : Option ℕ} {n : ℕ}
    (hn : s.contents ≠ [] → n < s.contents.length) (hpointer : pointer = Option.map s.queue.address
      (if (s.queue.toKqueue s.mem).count = 0 then none
        else some ((s.queue.toKqueue s.mem).nth n))) :
    pointer.map s.read = s.contents[n]? ∧ ∀ slot ∈ pointer, InBuffer s.queue slot := by
  subst hpointer
  rw [count_eq_length]
  by_cases hnil : s.contents = []
  · rw [if_pos (List.length_eq_zero_iff.mpr hnil), hnil]
    constructor
    · rfl
    · intro slot hslot
      cases hslot
  · have hlt := hn hnil
    rw [if_neg (fun hzero => hnil (List.length_eq_zero_iff.mp hzero)), List.getElem?_eq_getElem hlt]
    constructor
    · exact congrArg some (h.read_nth hlt)
    · intro slot hslot
      obtain rfl := Option.some.inj hslot
      exact h.nth_inBuffer hlt

theorem Ok.peek (h : s.Ok) : s.queue.kqueuePeek.map s.read = s.contents.head? ∧
    ∀ slot ∈ s.queue.kqueuePeek, InBuffer s.queue slot := by
  rw [List.head?_eq_getElem?]
  apply h.pointer
  · intro hne
    exact List.length_pos_of_ne_nil hne
  · rw [h.fits.peek_eq s.mem, Kqueue.peek_eq h.queue]

theorem Ok.last (h : s.Ok) : s.queue.kqueueLast.map s.read = s.contents.getLast? ∧
    ∀ slot ∈ s.queue.kqueueLast, InBuffer s.queue slot := by
  rw [List.getLast?_eq_getElem?]
  apply h.pointer
  · intro hne
    have hpos := List.length_pos_of_ne_nil hne
    omega
  · rw [h.fits.last_eq s.mem, Kqueue.last_eq h.queue, count_eq_length]

theorem Ok.pop_eq (s : QueueState) : s.queue.kqueuePop =
    (s.queue.kqueuePeek, if s.queue.kqueueEmpty then s.queue else s.queue.kqueueDrop) := by
  unfold IntQueue.kqueuePop IntQueue.kqueuePeek IntQueue.kqueueDrop
  cases s.queue.kqueueEmpty <;> rfl

/-- The queue after its first element is dropped. -/
theorem Ok.drop (h : s.Ok) (hne : s.contents ≠ []) :
    Ok ⟨s.mem, s.queue.kqueueDrop⟩ ∧ contents ⟨s.mem, s.queue.kqueueDrop⟩ = s.contents.tail := by
  have hcount : (s.queue.toKqueue s.mem).count ≠ 0 := by
    rw [← Kqueue.length_toList]
    exact fun hzero => hne (List.length_eq_zero_iff.mp hzero)
  obtain ⟨hok, htail⟩ := Kqueue.drop_spec h.queue hcount
  rw [← h.fits.drop_eq] at hok htail
  exact ⟨⟨h.fits.drop, hok⟩, htail⟩

/-- The pointer that `kqueue_at` gives, and what is behind it. -/
theorem Ok.at (h : s.Ok) {n : ℕ} (hn : n < s.contents.length) (hsum : s.queue.head + n < 2 ^ 31) :
    InBuffer s.queue (s.queue.kqueueAt n) ∧ s.read (s.queue.kqueueAt n) = s.contents[n] := by
  have hcount : n < (s.queue.toKqueue s.mem).count := by simpa [contents] using hn
  rw [h.fits.at_eq s.mem hcount h.queue hsum]
  exact ⟨h.nth_inBuffer hn, h.read_nth hn⟩

/-- An element written over through its pointer. -/
theorem Ok.store (h : s.Ok) {n : ℕ} {elem : Elem} (hn : n < s.contents.length)
    (hsum : s.queue.head + n < 2 ^ 31) (helem : elem.length = s.queue.elemSize.toNat) :
    Ok ⟨Ring.writeRun s.mem (s.queue.kqueueAt n) elem, s.queue⟩ ∧
      contents ⟨Ring.writeRun s.mem (s.queue.kqueueAt n) elem, s.queue⟩ =
      s.contents.set n elem := by
  have hcount : n < (s.queue.toKqueue s.mem).count := by simpa [contents] using hn
  obtain ⟨hok, hset⟩ := Kqueue.write_spec h.queue hcount elem
  rw [← IntQueue.toKqueue_write _ helem, ← h.fits.at_eq s.mem hcount h.queue hsum] at hok hset
  exact ⟨⟨h.fits, hok⟩, hset⟩

/-- A slot claimed at the tail and written. -/
theorem Ok.reserve (h : s.Ok) {elem : Elem} (helem : elem.length = s.queue.elemSize.toNat) :
    (s.queue.kqueueReserve = (none, s.queue) ∧ s.contents.length = s.queue.capacity.toNat) ∨
    ∃ slot, s.queue.kqueueReserve = (some slot, s.queue.claimed) ∧
      s.contents.length ≠ s.queue.capacity.toNat ∧
      InBuffer s.queue slot ∧ Ok ⟨Ring.writeRun s.mem slot elem, s.queue.claimed⟩ ∧
      contents ⟨Ring.writeRun s.mem slot elem, s.queue.claimed⟩ = s.contents ++ [elem] := by
  have htail := h.fits.tail
  have hcapacity := h.fits.capacity
  have hlength := h.length_contents
  unfold IntQueue.kqueueReserve
  by_cases hfull : s.queue.kqueueFull
  · left
    rw [if_pos hfull]
    refine ⟨rfl, ?_⟩
    have hcount : s.queue.kqueueCount = s.queue.capacity := beq_iff_eq.mp hfull
    omega
  · right
    rw [if_neg hfull]
    have hreserve := h.fits.reserve_eq s.mem
    rw [if_neg hfull] at hreserve
    obtain ⟨hok, happend, -⟩ := Kqueue.reserve_spec h.queue hreserve elem
    have hget := h.fits.get_eq s.mem (show (s.queue.tail.toNat : ℤ) < _ by omega)
    rw [Int.toNat_of_nonneg htail.1] at hget
    have helem' : elem.length = s.queue.claimed.elemSize.toNat := helem
    rw [← IntQueue.toKqueue_write _ helem'] at hok happend
    refine ⟨s.queue.kqueueGet s.queue.tail, rfl, ?_, ⟨_, ?_, hget⟩, ?_⟩
    · intro hlen
      apply hfull
      apply beq_iff_eq.mpr
      omega
    · apply IntQueue.slot_lt
      change s.queue.tail.toNat < 2 * s.queue.capacity.toNat
      omega
    · rw [hget]
      exact ⟨⟨h.fits.claimed, hok⟩, happend⟩

/-- A call that leaves memory and queue alone. -/
theorem Agrees.of_read (h : s.Ok) {call : QueueCall} (hstate : (s.exec call).1 = s)
    (hfifo : (fifo s.queue.capacity.toNat s.contents call).1 = s.contents)
    (hanswer : (s.exec call).2.1 = (fifo s.queue.capacity.toNat s.contents call).2)
    (hin : ∀ pointer ∈ (s.exec call).2.2, InBuffer s.queue pointer) : s.Agrees call := by
  constructor <;> first | assumption | rw [hstate]
  · exact h
  · exact hfifo.symm

theorem Ok.agrees_drop (h : s.Ok) (hlegal : Legal s .drop) : s.Agrees .drop := by
  have hne : s.contents ≠ [] := fun hnil => by simp [Legal, h.eq_nil_iff.mpr hnil] at hlegal
  obtain ⟨hok, htail⟩ := h.drop hne
  exact ⟨hok, rfl, rfl, rfl, htail, rfl, fun _ hp => by cases hp⟩

theorem Ok.agrees_pop (h : s.Ok) : s.Agrees .pop := by
  obtain ⟨hread, hin⟩ := h.peek
  have hexec : s.exec .pop = (⟨s.mem, if s.queue.kqueueEmpty then s.queue else s.queue.kqueueDrop⟩,
      .elem (s.queue.kqueuePeek.map s.read), s.queue.kqueuePeek) := by
    unfold exec
    rw [pop_eq]
  by_cases hnil : s.contents = []
  · rw [if_pos (h.eq_nil_iff.mpr hnil)] at hexec
    constructor <;> rw [hexec]
    · exact h
    · change s.contents = s.contents.tail
      rw [hnil, List.tail_nil]
    · exact congrArg QueueAnswer.elem hread
    · exact hin
  · obtain ⟨hok, htail⟩ := h.drop hnil
    rw [if_neg (fun hempty => hnil (h.eq_nil_iff.mp hempty))] at hexec
    constructor <;> rw [hexec]
    · exact hok
    · rfl
    · rfl
    · rfl
    · exact htail
    · exact congrArg QueueAnswer.elem hread
    · exact hin

/-- A push is a reserved slot that is written at once. -/
theorem exec_push (s : QueueState) (elem : Elem) :
    s.exec (.push elem) = s.exec (.reserve elem) := by
  unfold exec IntQueue.kqueuePush
  rcases s.queue.kqueueReserve with ⟨slot | slot, queue⟩ <;> rfl

theorem Ok.agrees_reserve (h : s.Ok) {elem : Elem} (hlegal : Legal s (.reserve elem)) :
    s.Agrees (.reserve elem) := by
  rcases h.reserve hlegal with ⟨hnone, hfull⟩ | ⟨slot, hsome, hroom, hin, hok, happend⟩
  · have hexec : s.exec (.reserve elem) = (s, .flag false, none) := by
      unfold exec
      rw [hnone]
    have hfifo : fifo s.queue.capacity.toNat s.contents (.reserve elem) =
        (s.contents, .flag false) := if_pos hfull
    apply Agrees.of_read h
    · rw [hexec]
    · rw [hfifo]
    · rw [hexec, hfifo]
    · intro pointer hp
      rw [hexec] at hp
      cases hp
  · have hexec : s.exec (.reserve elem) =
        (⟨Ring.writeRun s.mem slot elem, s.queue.claimed⟩, .flag true, some slot) := by
      unfold exec
      rw [hsome]
    have hfifo : fifo s.queue.capacity.toNat s.contents (.reserve elem) =
        (s.contents ++ [elem], .flag true) :=
      if_neg hroom
    constructor <;> rw [hexec]
    · exact hok
    · rfl
    · rfl
    · rfl
    · rw [hfifo]
      exact happend
    · rw [hfifo]
    · intro pointer hp
      obtain rfl := Option.some.inj hp
      exact hin

theorem Ok.agrees_push (h : s.Ok) {elem : Elem} (hlegal : Legal s (.push elem)) :
    s.Agrees (.push elem) := by
  have hreserve : Legal s (.reserve elem) := hlegal
  obtain ⟨hok, hbuffer, hcapacity, hsize, hcontents, hanswer, hin⟩ := h.agrees_reserve hreserve
  rw [← exec_push] at hok hbuffer hcapacity hsize hcontents hanswer hin
  exact ⟨hok, hbuffer, hcapacity, hsize, hcontents, hanswer, hin⟩

theorem Ok.agrees_store (h : s.Ok) {n : ℕ} {elem : Elem} (hlegal : Legal s (.store n elem))
    (hsum : SumFits s (.store n elem)) : s.Agrees (.store n elem) := by
  have hlength := h.length_contents
  obtain ⟨hn, helem⟩ := hlegal
  have hlt : n < s.contents.length := by omega
  obtain ⟨hok, hset⟩ := h.store hlt hsum helem
  refine ⟨hok, rfl, rfl, rfl, hset, rfl, ?_⟩
  intro pointer hp
  obtain rfl := Option.some.inj hp
  exact (h.at hlt hsum).1

theorem Ok.agrees_nth (h : s.Ok) {n : ℕ} (hlegal : Legal s (.nth n)) (hsum : SumFits s (.nth n)) :
    s.Agrees (.nth n) := by
  have hlength := h.length_contents
  have hlt : n < s.contents.length := by
    have hn : (n : ℤ) < s.queue.kqueueCount := hlegal
    omega
  obtain ⟨hin, hread⟩ := h.at hlt hsum
  apply Agrees.of_read h
  · rfl
  · rfl
  · change QueueAnswer.elem (some _) = .elem s.contents[n]?
    rw [hread, List.getElem?_eq_getElem hlt]
  · intro pointer hp
    obtain rfl := Option.some.inj hp
    exact hin

/-- One call, as of the list. -/
theorem Ok.agrees (h : s.Ok) {call : QueueCall} (hlegal : Legal s call) (hsum : SumFits s call) :
    s.Agrees call := by
  have hlength := h.length_contents
  have hcapacity := h.fits.capacity
  cases call with
  | push elem => exact h.agrees_push hlegal
  | pop => exact h.agrees_pop
  | reserve elem => exact h.agrees_reserve hlegal
  | store n elem => exact h.agrees_store hlegal hsum
  | drop => exact h.agrees_drop hlegal
  | peek => exact .of_read h rfl rfl (congrArg QueueAnswer.elem h.peek.1) h.peek.2
  | last => exact .of_read h rfl rfl (congrArg QueueAnswer.elem h.last.1) h.last.2
  | nth n => exact h.agrees_nth hlegal hsum
  | count => exact .of_read h rfl rfl (congrArg QueueAnswer.num hlength) (fun _ hp => by cases hp)
  | full =>
    apply Agrees.of_read h rfl rfl
    · change QueueAnswer.flag s.queue.kqueueFull =
        .flag (s.contents.length = s.queue.capacity.toNat)
      congr 1
      unfold IntQueue.kqueueFull
      rw [Bool.eq_iff_iff, beq_iff_eq, decide_eq_true_iff]
      omega
    · intro _ hp
      cases hp
  | empty =>
    apply Agrees.of_read h rfl rfl
    · change QueueAnswer.flag s.queue.kqueueEmpty = .flag s.contents.isEmpty
      congr 1
      rw [Bool.eq_iff_iff, h.eq_nil_iff, List.isEmpty_iff]
    · intro _ hp
      cases hp

/-! ### Whole runs -/

def start (mem : ℕ → UInt8) (buffer : ℕ) (capacity elemSize : ℤ) : QueueState :=
  ⟨mem, IntQueue.kqueueInit buffer capacity elemSize⟩

/-- A new queue behaves as a bounded list: the same answers and contents, and no pointer outside of
the buffer. -/
structure RefinesList (s : QueueState) (calls : List QueueCall) : Prop where
  answers : (Machine.run exec s calls).2.map (fun e => (e.1, e.2.1)) =
    (Machine.run (fifo s.queue.capacity.toNat) [] calls).2
  contents : (Machine.run exec s calls).1.contents =
    (Machine.run (fifo s.queue.capacity.toNat) [] calls).1
  bounded : (Machine.run exec s calls).1.contents.length ≤ s.queue.capacity.toNat
  inBuffer : ∀ e ∈ (Machine.run exec s calls).2, ∀ pointer ∈ e.2.2, InBuffer s.queue pointer

theorem start_ok (mem : ℕ → UInt8) {buffer : ℕ} {capacity elemSize : ℤ}
    (hcapacity : 1 ≤ capacity ∧ 2 * capacity < 2 ^ 31) (helem : 0 ≤ elemSize)
    (hbuffer : buffer < 2 ^ 32 ∧ buffer + capacity * elemSize ≤ 2 ^ 32) :
    (start mem buffer capacity elemSize).Ok ∧
    (start mem buffer capacity elemSize).contents = [] := by
  have hends : (0 : ℤ) ≤ 0 ∧ 0 < 2 * capacity := by omega
  obtain ⟨hok, hnil⟩ := Kqueue.init_spec
    (fun slot => slice mem ((start mem buffer capacity elemSize).queue.address slot) elemSize.toNat)
    (show 0 < capacity.toNat by omega)
  exact ⟨⟨⟨hcapacity, helem, hbuffer, hends, hends⟩, hok⟩, hnil⟩

/-- The rings of `s` and `t` are in the same place. -/
def SameBuffer (s t : QueueState) : Prop :=
  t.queue.buffer = s.queue.buffer ∧ t.queue.capacity = s.queue.capacity ∧
    t.queue.elemSize = s.queue.elemSize

theorem InBuffer.of_same {s t : QueueState} (h : SameBuffer s t) {pointer : ℕ}
    (hin : InBuffer t.queue pointer) :
    InBuffer s.queue pointer := by
  obtain ⟨hbuffer, hcapacity, hsize⟩ := h
  obtain ⟨slot, hslot, rfl⟩ := hin
  refine ⟨slot, by rwa [← hcapacity], ?_⟩
  unfold IntQueue.address
  rw [hbuffer, hsize]

/-- What a history has in common with that of the list. -/
structure Tracks (s : QueueState) (history : List (QueueCall × QueueAnswer × Option ℕ))
    (t : QueueState) : Prop where
  ok : t.Ok
  same : SameBuffer s t
  contents : t.contents = (Machine.run (fifo s.queue.capacity.toNat) [] (history.map Prod.fst)).1
  answers : history.map (fun e => (e.1, e.2.1)) =
    (Machine.run (fifo s.queue.capacity.toNat) [] (history.map Prod.fst)).2
  inBuffer : ∀ e ∈ history, ∀ pointer ∈ e.2.2, InBuffer s.queue pointer

theorem Tracks.step {t : QueueState} {history : List (QueueCall × QueueAnswer × Option ℕ)}
    {call : QueueCall} (h : Tracks s history t) (hlegal : Legal t call) (hsum : SumFits t call) :
    Tracks s (history ++ [(call, (t.exec call).2)]) (t.exec call).1 := by
  obtain ⟨hok, hbuffer, hcapacity, hsize, hcontents, hanswer, hin⟩ := h.ok.agrees hlegal hsum
  have hsame := h.same
  obtain ⟨hbuffer', hcapacity', hsize'⟩ := hsame
  rw [hcapacity', h.contents] at hcontents hanswer
  constructor
  · exact hok
  · exact ⟨hbuffer.trans hbuffer', hcapacity.trans hcapacity', hsize.trans hsize'⟩
  · rw [List.map_append, List.map_singleton, Machine.run_snoc]
    exact hcontents
  · rw [List.map_append, List.map_singleton, List.map_append, List.map_singleton, Machine.run_snoc,
      h.answers, hanswer]
  · intro e he pointer hp
    rcases List.mem_append.mp he with hold | hnew
    · exact h.inBuffer e hold pointer hp
    · obtain rfl := List.mem_singleton.mp hnew
      exact InBuffer.of_same h.same (hin pointer hp)

/-- A queue is a bounded list over every run in which no sum of `kqueue_at` overflows. -/
theorem run_refinesList (mem : ℕ → UInt8) {buffer : ℕ} {capacity elemSize : ℤ}
    (hcapacity : 1 ≤ capacity ∧ 2 * capacity < 2 ^ 31) (helem : 0 ≤ elemSize)
    (hbuffer : buffer < 2 ^ 32 ∧ buffer + capacity * elemSize ≤ 2 ^ 32) {calls : List QueueCall}
    (hcalls : Machine.Along exec (fun s call => Legal s call ∧ SumFits s call)
      (start mem buffer capacity elemSize) calls) :
    RefinesList (start mem buffer capacity elemSize) calls := by
  obtain ⟨hok, hnil⟩ := start_ok mem hcapacity helem hbuffer
  have htracks := Machine.run_history_along (P := Tracks (start mem buffer capacity elemSize))
    ⟨hok, ⟨rfl, rfl, rfl⟩, hnil, rfl, fun _ he => by cases he⟩
    (fun _ _ _ h hcall => h.step hcall.1 hcall.2) hcalls
  obtain ⟨hfinal, hsame, hcontents, hanswers, hin⟩ := htracks
  rw [Machine.run_commands] at hcontents hanswers
  refine ⟨hanswers, hcontents, ?_, hin⟩
  have hle := hfinal.queue.count_le
  rw [count_eq_length] at hle
  rw [← hsame.2.1]
  exact hle

/-- Two slots of one byte, filled, read and emptied, the second round included. -/
theorem run_refinesList_two : RefinesList (start (fun _ => 0) 4096 2 1)
    [.reserve [7], .push [8], .push [9], .nth 1, .last, .pop, .push [9], .count, .store 1 [5],
      .drop, .peek] :=
  run_refinesList (fun _ => 0) (by decide) (by decide) (by decide) (by
    repeat' constructor)

/-! ### A sum that overflows -/

/-- Legal calls that leave a queue as `q`. -/
def Reaches (s : QueueState) (calls : List QueueCall) (q : IntQueue) : Prop :=
  Machine.Along exec Legal s calls ∧ (Machine.run exec s calls).1.queue = q

theorem Reaches.append {calls calls' : List QueueCall} {q q' : IntQueue} (h : Reaches s calls q)
    (h' : ∀ mem, Reaches ⟨mem, q⟩ calls' q') : Reaches s (calls ++ calls') q' := by
  obtain ⟨hlegal, rfl⟩ := h
  obtain ⟨hlegal', hqueue⟩ := h' (Machine.run exec s calls).1.mem
  constructor
  · exact Machine.along_append hlegal hlegal'
  · rw [Machine.run_append]
    exact hqueue

theorem reaches_push {mem : ℕ → UInt8} {q q' : IntQueue} {slot : ℕ} (hsize : q.elemSize = 1)
    (hreserve : q.kqueueReserve = (some slot, q')) : Reaches ⟨mem, q⟩ [.push [0]] q' := by
  constructor
  · refine ⟨?_, trivial⟩
    change 1 = q.elemSize.toNat
    rw [hsize]
    rfl
  · change (exec ⟨mem, q⟩ (.push [0])).1.queue = q'
    unfold exec IntQueue.kqueuePush
    rw [hreserve]

theorem reaches_pop {mem : ℕ → UInt8} {q q' : IntQueue} {slot : Option ℕ}
    (hpop : q.kqueuePop = (slot, q')) :
    Reaches ⟨mem, q⟩ [.pop] q' := by
  constructor
  · exact ⟨trivial, trivial⟩
  · change (exec ⟨mem, q⟩ .pop).1.queue = q'
    unfold exec
    rw [hpop]

/-- The largest queue of bytes. -/
def largest (head tail : ℤ) : IntQueue := ⟨4096, 2 ^ 30 - 1, 1, head, tail⟩

theorem largest_advance {head tail i : ℤ} (h0 : 0 ≤ i) (hi : i + 1 < 2 ^ 31 - 2) :
    (largest head tail).kqueueAdvance i = i + 1 := by
  have hdouble : int32 (2 * (largest head tail).capacity) = 2 ^ 31 - 2 := rfl
  unfold IntQueue.kqueueAdvance
  rw [int32_of_bounds (by omega) (by omega), hdouble]
  exact if_neg (by omega)

/-- `rounds` times an element is pushed and popped. -/
def turns : ℕ → List QueueCall
  | 0 => []
  | rounds + 1 => turns rounds ++ ([.push [0]] ++ [.pop])

/-- A turn moves both ends on by one. -/
theorem reaches_turn (mem : ℕ → UInt8) {i : ℤ} (h0 : 0 ≤ i) (hi : i + 1 < 2 ^ 31 - 2) :
    Reaches ⟨mem, largest i i⟩ ([.push [0]] ++ [.pop]) (largest (i + 1) (i + 1)) := by
  have hfull : (largest i i).kqueueFull = false := by
    have hdiff : int32 ((largest i i).tail - (largest i i).head) = 0 := by
      change int32 (i - i) = 0
      rw [sub_self]
      rfl
    unfold IntQueue.kqueueFull IntQueue.kqueueCount
    rw [hdiff]
    rfl
  have hreserve :
      (largest i i).kqueueReserve = (some ((largest i i).kqueueGet i), largest i (i + 1)) := by
    unfold IntQueue.kqueueReserve
    rw [hfull]
    change (_, largest i ((largest i i).kqueueAdvance i)) = _
    rw [largest_advance h0 hi]
    rfl
  have hpop : (largest i (i + 1)).kqueuePop =
      (some ((largest i (i + 1)).kqueueGet i), largest (i + 1) (i + 1)) := by
    have hempty : (largest i (i + 1)).kqueueEmpty = false := by
      apply beq_eq_false_iff_ne.mpr
      change i + 1 ≠ i
      omega
    unfold IntQueue.kqueuePop
    rw [hempty]
    change (_, largest ((largest i (i + 1)).kqueueAdvance i) (i + 1)) = _
    rw [largest_advance h0 hi]
    rfl
  apply Reaches.append (reaches_push rfl hreserve)
  intro mem'
  exact reaches_pop hpop

theorem reaches_turns (mem : ℕ → UInt8) (rounds : ℕ) (h : (rounds : ℤ) < 2 ^ 31 - 2) :
    Reaches (start mem 4096 (2 ^ 30 - 1) 1) (turns rounds) (largest rounds rounds) := by
  induction rounds with
  | zero => exact ⟨trivial, rfl⟩
  | succ rounds ih =>
    apply (ih (by omega)).append
    intro mem'
    exact reaches_turn mem' (by omega) (by omega)

/-- Four elements at the last turn, the first two of them in the last slots. -/
theorem reaches_wrapped (mem : ℕ → UInt8) :
    Reaches ⟨mem, largest (2 ^ 31 - 3) (2 ^ 31 - 3)⟩
      ([.push [0]] ++ ([.push [0]] ++ ([.push [0]] ++ [.push [0]])))
      (largest (2 ^ 31 - 3) 3) := by
  have h0 : (largest (2 ^ 31 - 3) (2 ^ 31 - 3)).kqueueReserve =
      (some (4096 + (2 ^ 30 - 2)), largest (2 ^ 31 - 3) 0) := by decide
  have h1 : (largest (2 ^ 31 - 3) 0).kqueueReserve = (some 4096, largest (2 ^ 31 - 3) 1) := by
    decide
  have h2 : (largest (2 ^ 31 - 3) 1).kqueueReserve = (some 4097, largest (2 ^ 31 - 3) 2) := by
    decide
  have h3 : (largest (2 ^ 31 - 3) 2).kqueueReserve = (some 4098, largest (2 ^ 31 - 3) 3) := by
    decide
  apply Reaches.append (reaches_push rfl h0)
  intro mem
  apply Reaches.append (reaches_push rfl h1)
  intro mem
  apply Reaches.append (reaches_push rfl h2)
  intro mem
  exact reaches_push rfl h3

theorem exists_reaches_wrapped (mem : ℕ → UInt8) : ∃ calls,
    Reaches (start mem 4096 (2 ^ 30 - 1) 1) calls (largest (2 ^ 31 - 3) 3) := by
  obtain ⟨rounds, hrounds⟩ := Int.eq_ofNat_of_zero_le (show (0 : ℤ) ≤ 2 ^ 31 - 3 by norm_num)
  have hturns := reaches_turns mem rounds (by omega)
  rw [← hrounds] at hturns
  exact ⟨_, hturns.append reaches_wrapped⟩

theorem wrapped_outside : ¬InBuffer (largest 0 0) ((largest (2 ^ 31 - 3) 3).kqueueAt 3) := by
  have hat : (largest (2 ^ 31 - 3) 3).kqueueAt 3 = 4096 + 2 ^ 31 := by decide
  rintro ⟨slot, hslot, heq⟩
  change slot < 2 ^ 30 - 1 at hslot
  rw [hat] at heq
  change 4096 + 2 ^ 31 = 4096 + slot * 1 at heq
  omega

/-- After `2 ^ 31 - 3` turns of the largest queue, the pointer to its fourth element is outside of
the buffer. -/
theorem not_refinesList :
    ¬∀ (mem : ℕ → UInt8) (buffer : ℕ) (capacity elemSize : ℤ) (calls : List QueueCall),
    1 ≤ capacity ∧ 2 * capacity < 2 ^ 31 → 0 ≤ elemSize →
    buffer < 2 ^ 32 ∧ buffer + capacity * elemSize ≤ 2 ^ 32 →
    Machine.Along exec Legal (start mem buffer capacity elemSize) calls →
    RefinesList (start mem buffer capacity elemSize) calls := by
  intro hall
  obtain ⟨calls, hlegal, hqueue⟩ := exists_reaches_wrapped (fun _ => 0)
  have hnth :
      Legal (Machine.run exec (start (fun _ => 0) 4096 (2 ^ 30 - 1) 1) calls).1 (.nth 3) := by
    unfold Legal
    rw [hqueue]
    decide
  have hcalls :
      Machine.Along exec Legal (start (fun _ => 0) 4096 (2 ^ 30 - 1) 1) (calls ++ [.nth 3]) :=
    Machine.along_append hlegal ⟨hnth, trivial⟩
  have hrefines := hall _ _ _ _ _ (by decide) (by decide) (by decide) hcalls
  have hin := hrefines.inBuffer
  rw [Machine.run_snoc] at hin
  apply wrapped_outside
  rw [← hqueue]
  exact hin _ (List.mem_append_right _ (.head _)) _ rfl

end QueueState

end X86Kernel.Tasks
