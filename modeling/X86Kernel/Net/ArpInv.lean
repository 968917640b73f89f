import X86Kernel.Net.Arp
import Mathlib.Data.List.Infix

/-! The invariant of the ARP tables, and that every operation on a slot keeps it. -/
namespace X86Kernel.Net

/-- The mapping for an address that was learned last. -/
def lastLearned : List ArpEvent → ℕ → Option (List UInt8)
  | [], _ => none
  | .learned ip mac :: log, a => if ip = a then some mac else lastLearned log a
  | _ :: log, a => lastLearned log a

/-- How often a call is sent, and how often dropped, by an event. -/
def ArpEvent.sends (n : ℕ) : ArpEvent → ℕ
  | .sent call _ _ _ => if call = n then 1 else 0
  | _ => 0

def ArpEvent.drops (n : ℕ) : ArpEvent → ℕ
  | .dropped call _ => if call = n then 1 else 0
  | _ => 0

def PendingPkt.waits (n : ℕ) (p : PendingPkt) : ℕ := if p.used = true ∧ p.call = n then 1 else 0

@[simp] theorem PendingPkt.cleared_used (p : PendingPkt) : p.cleared.used = false := rfl

@[simp] theorem PendingPkt.cleared_waits (p : PendingPkt) (n : ℕ) : p.cleared.waits n = 0 := by
  simp [PendingPkt.waits]

namespace Arp

/-- What a call of `net_tx` comes to. -/
inductive Ends (log : List ArpEvent) (call : ℕ) (p : Packet) : ArpEvent → Prop
  | sent {mac : List UInt8} (h : lastLearned log p.nextHop = some mac) :
      Ends log call p (.sent call mac p.ethertype p.data)
  | dropped (reason : DropReason) : Ends log call p (.dropped call reason)

variable {E E' : ℕ → Prop} {m n a hop call : ℕ} {s s' : Arp} {i : Fin arpCacheSize}
  {j : Fin arpQueueSize}
  {p : Packet} {mac : List UInt8} {e : ArpEvent}

def timesSent (s : Arp) (n : ℕ) : ℕ := (s.log.map (ArpEvent.sends n)).sum
def timesDropped (s : Arp) (n : ℕ) : ℕ := (s.log.map (ArpEvent.drops n)).sum
def timesQueued (s : Arp) (n : ℕ) : ℕ := ∑ j, (s.queue j).waits n

/-- Where a call is: transmitted, waiting or dropped. -/
def fate (s : Arp) (n : ℕ) : ℕ := s.timesSent n + s.timesQueued n + s.timesDropped n

/-- A transmitted packet is the one given, to the address learned last for its next hop. -/
def SentRight (given : List Packet) (log : List ArpEvent) : Prop :=
  ∀ call dest ethertype data earlier, .sent call dest ethertype data :: earlier <:+ log →
    ∃ p, given[call]? = some p ∧ ethertype = p.ethertype ∧ data = p.data ∧
      lastLearned earlier p.nextHop = some dest

/-- The tables agree, but for packets to a next hop of `E`, which may wait with no pending entry;
the first `m` calls are accounted for. -/
structure Inv (E : ℕ → Prop) (m : ℕ) (s : Arp) : Prop where
  unique : ∀ i k, (s.cache i).state ≠ .free → (s.cache k).state ≠ .free →
    (s.cache i).ip = (s.cache k).ip → i = k
  learned : ∀ i, (s.cache i).state = .resolved →
    lastLearned s.log (s.cache i).ip = some (s.cache i).mac
  waiting : ∀ j, (s.queue j).used = true → ¬E (s.queue j).packet.nextHop →
    ∃ i, (s.cache i).state = .pending ∧ (s.cache i).ip = (s.queue j).packet.nextHop
  own : ∀ j, (s.queue j).used = true → s.given[(s.queue j).call]? = some (s.queue j).packet
  sent : SentRight s.given s.log
  accounted : ∀ n, s.fate n = if n < m then 1 else 0

/-! ### The operations on the record -/

section Fields

@[simp] theorem emit_cache : (s.emit e).cache = s.cache := rfl
@[simp] theorem emit_queue : (s.emit e).queue = s.queue := rfl
@[simp] theorem emit_given : (s.emit e).given = s.given := rfl
@[simp] theorem emit_log : (s.emit e).log = e :: s.log := rfl

variable {entry : ArpEntry} {slot : PendingPkt}

@[simp] theorem setEntry_cache : (s.setEntry i entry).cache = Function.update s.cache i entry := rfl
@[simp] theorem setEntry_queue : (s.setEntry i entry).queue = s.queue := rfl
@[simp] theorem setEntry_given : (s.setEntry i entry).given = s.given := rfl
@[simp] theorem setEntry_log : (s.setEntry i entry).log = s.log := rfl
@[simp] theorem setSlot_cache : (s.setSlot j slot).cache = s.cache := rfl
@[simp] theorem setSlot_queue : (s.setSlot j slot).queue = Function.update s.queue j slot := rfl
@[simp] theorem setSlot_given : (s.setSlot j slot).given = s.given := rfl
@[simp] theorem setSlot_log : (s.setSlot j slot).log = s.log := rfl

@[simp] theorem setEntry_fate : (s.setEntry i entry).fate n = s.fate n := rfl

theorem emit_fate (s : Arp) (e : ArpEvent) (n : ℕ) :
    (s.emit e).fate n = s.fate n + e.sends n + e.drops n := by
  simp only [fate, timesSent, timesDropped, timesQueued, emit_log, emit_queue, List.map_cons,
    List.sum_cons]
  ring

theorem setSlot_fate (s : Arp) (j : Fin arpQueueSize) (slot : PendingPkt) (n : ℕ) :
    (s.setSlot j slot).fate n + (s.queue j).waits n = s.fate n + slot.waits n := by
  have hsum := Counting.sum_update (PendingPkt.waits n) s.queue j slot
  simp only [fate, timesSent, timesDropped, timesQueued, setSlot_log, setSlot_queue]
  omega

/-- What is not a packet's end leaves the accounts as they are. -/
theorem emit_fate_of (hs : e.sends n = 0) (hd : e.drops n = 0) : (s.emit e).fate n = s.fate n := by
  rw [emit_fate, hs, hd, Nat.add_zero]

theorem ethSend_eq : s.ethSend call mac p = s.emit (.sent call mac p.ethertype p.data) :=
  if_neg (not_lt.mpr p.data.property)

end Fields

/-! ### What the log says -/

theorem Ends.lastLearned {log l : List ArpEvent} (h : Ends log call p e) (a : ℕ) :
    lastLearned (e :: l) a = lastLearned l a := by
  cases h <;> rfl

theorem Ends.count {log : List ArpEvent} (h : Ends log call p e) (n : ℕ) :
    e.sends n + e.drops n = if call = n then 1 else 0 := by
  cases h <;> simp [ArpEvent.sends, ArpEvent.drops]

namespace SentRight

variable {given : List Packet} {log : List ArpEvent}

theorem cons (h : SentRight given log) (he : ∀ n, e.sends n = 0) : SentRight given (e :: log) := by
  intro call dest ethertype data earlier hsuffix
  rcases List.suffix_cons_iff.mp hsuffix with heq | hrest
  · obtain ⟨rfl, rfl⟩ := List.cons.inj heq
    exact absurd (he call) (by simp [ArpEvent.sends])
  · exact h _ _ _ _ _ hrest

theorem cons_ends (h : SentRight given log) (he : Ends log call p e) (hp : given[call]? = some p) :
    SentRight given (e :: log) := by
  intro call' dest ethertype data earlier hsuffix
  rcases List.suffix_cons_iff.mp hsuffix with heq | hrest
  · obtain ⟨rfl, rfl⟩ := List.cons.inj heq
    cases he with
    | sent hmac => exact ⟨p, hp, rfl, rfl, hmac⟩
  · exact h _ _ _ _ _ hrest

theorem append (h : SentRight given log) (p : Packet) : SentRight (given ++ [p]) log := by
  intro call dest ethertype data earlier hsuffix
  obtain ⟨q, hq, hrest⟩ := h _ _ _ _ _ hsuffix
  refine ⟨q, ?_, hrest⟩
  rw [List.getElem?_append_left (List.getElem?_eq_some_iff.mp hq).1]
  exact hq

end SentRight

/-! ### One slot of the queue -/

namespace Inv

theorem mono (h : Inv E m s) (hE : ∀ a, E a → E' a) : Inv E' m s where
  unique := h.unique
  learned := h.learned
  waiting j hj hE' := h.waiting j hj fun hn => hE' (hE _ hn)
  own := h.own
  sent := h.sent
  accounted := h.accounted

theorem emit (h : Inv E m s) (hs : ∀ n, e.sends n = 0) (hd : ∀ n, e.drops n = 0)
    (hl : ∀ a, lastLearned (e :: s.log) a = lastLearned s.log a) : Inv E m (s.emit e) where
  unique := h.unique
  learned i hi := (hl _).trans (h.learned i hi)
  waiting := h.waiting
  own := h.own
  sent := h.sent.cons hs
  accounted n := (emit_fate_of (hs n) (hd n)).trans (h.accounted n)

/-- A packet leaves its slot. -/
theorem finish (h : Inv E m s) (hj : (s.queue j).used = true)
    (he : Ends s.log (s.queue j).call (s.queue j).packet e) :
    Inv E m ((s.emit e).setSlot j (s.queue j).cleared) := by
  have hqueue : ∀ k, ((Function.update s.queue j (s.queue j).cleared) k).used = true →
      k ≠ j ∧ (Function.update s.queue j (s.queue j).cleared) k = s.queue k := by
    intro k hk
    by_cases hkj : k = j
    · subst hkj
      simp at hk
    · exact ⟨hkj, Function.update_of_ne hkj _ _⟩
  constructor
  · exact h.unique
  · intro i hi
    exact (he.lastLearned _).trans (h.learned i hi)
  · intro k hk
    obtain ⟨-, heq⟩ := hqueue k hk
    simp only [setSlot_queue, emit_queue, setSlot_cache, emit_cache] at hk ⊢
    rw [heq] at hk ⊢
    exact h.waiting k hk
  · intro k hk
    obtain ⟨-, heq⟩ := hqueue k hk
    simp only [setSlot_queue, emit_queue, setSlot_given, emit_given] at hk ⊢
    rw [heq] at hk ⊢
    exact h.own k hk
  · exact h.sent.cons_ends he (h.own j hj)
  · intro n
    have hslot := setSlot_fate (s.emit e) j (s.queue j).cleared n
    have hcount := he.count n
    have hemit := emit_fate s e n
    rw [emit_queue, PendingPkt.cleared_waits, PendingPkt.waits, hj] at hslot
    simp only [true_and] at hslot
    rw [← h.accounted n]
    omega

/-- A new packet is sent at once, or dropped. -/
theorem finish_new (h : Inv E s.given.length s) (he : Ends s.log s.given.length p e) :
    Inv E (s.given.length + 1) ((s.give p).emit e) := by
  constructor
  · exact h.unique
  · intro i hi
    exact (he.lastLearned _).trans (h.learned i hi)
  · exact h.waiting
  · intro k hk
    have hown := h.own k hk
    exact (List.getElem?_append_left (List.getElem?_eq_some_iff.mp hown).1).trans hown
  · apply (h.sent.append p).cons_ends he
    simp
  · intro n
    have hcount := he.count n
    have hemit := emit_fate (s.give p) e n
    have hold : (s.give p).fate n = if n < s.given.length then 1 else 0 := h.accounted n
    rw [hold] at hemit
    rw [hemit, Nat.add_assoc, hcount]
    split_ifs <;> omega

/-- A new packet gets a free slot. -/
theorem enqueue_new (h : Inv E s.given.length s) (hj : (s.queue j).used = false) :
    Inv (fun a => E a ∨ a = p.nextHop) (s.given.length + 1)
      ((s.give p).setSlot j ⟨true, p, s.given.length⟩) := by
  constructor
  · exact h.unique
  · exact h.learned
  · intro k hk hE
    simp only [setSlot_queue, setSlot_cache, give] at hk hE ⊢
    by_cases hkj : k = j
    · subst hkj
      simp at hE
    · rw [Function.update_of_ne hkj] at hk hE ⊢
      exact h.waiting k hk fun hn => hE (.inl hn)
  · intro k hk
    simp only [setSlot_queue, setSlot_given, give] at hk ⊢
    by_cases hkj : k = j
    · subst hkj
      simp
    · rw [Function.update_of_ne hkj] at hk ⊢
      have hown := h.own k hk
      exact (List.getElem?_append_left (List.getElem?_eq_some_iff.mp hown).1).trans hown
  · exact h.sent.append p
  · intro n
    have hslot := setSlot_fate (s.give p) j ⟨true, p, s.given.length⟩ n
    have hold : (s.give p).fate n = if n < s.given.length then 1 else 0 := h.accounted n
    have hfree : ((s.give p).queue j).used = false := hj
    simp only [PendingPkt.waits, hfree, Bool.false_eq_true, false_and, if_false, true_and] at hslot
    rw [hold] at hslot
    split_ifs at hslot ⊢ <;> omega

end Inv

end Arp

end X86Kernel.Net
