import Mathlib.Data.UInt
import Mathlib.Logic.Function.Basic

/-! Programs over a memory of bytes that record which of them they read and write, and the rules for
a bound on all of these accesses. -/
namespace Traced

inductive Access where
  | read (off : ℕ)
  | write (off : ℕ)
  deriving DecidableEq

@[simp] def Access.off : Access → ℕ
  | .read off => off
  | .write off => off

abbrev Bytes := ℕ → UInt8

structure Outcome (α : Type) where
  value : α
  mem : Bytes
  log : List Access

end Traced

/-- A program that gives a value of `α`. -/
def Traced (α : Type) : Type := Traced.Bytes → Traced.Outcome α

namespace Traced

variable {α β : Type}

instance : Monad Traced where
  pure a := fun mem => ⟨a, mem, []⟩
  bind m k := fun mem => ⟨(k (m mem).value (m mem).mem).value, (k (m mem).value (m mem).mem).mem,
    (m mem).log ++ (k (m mem).value (m mem).mem).log⟩

def read (off : ℕ) : Traced UInt8 := fun mem => ⟨mem off, mem, [.read off]⟩

def write (off : ℕ) (v : UInt8) : Traced Unit :=
  fun mem => ⟨(), Function.update mem off v, [.write off]⟩

/-- `n` bytes from an offset on. -/
def readBytes (off : ℕ) : ℕ → Traced (List UInt8)
  | 0 => pure []
  | n + 1 => do
    let b ← read off
    let rest ← readBytes (off + 1) n
    return b :: rest

@[simp] theorem run_pure (a : α) (mem : Bytes) : (pure a : Traced α) mem = ⟨a, mem, []⟩ := rfl

@[simp] theorem run_bind (m : Traced α) (k : α → Traced β) (mem : Bytes) :
    (m >>= k) mem = ⟨(k (m mem).value (m mem).mem).value, (k (m mem).value (m mem).mem).mem,
      (m mem).log ++ (k (m mem).value (m mem).mem).log⟩ := rfl

@[simp] theorem run_read (off : ℕ) (mem : Bytes) : read off mem = ⟨mem off, mem, [.read off]⟩ := rfl

@[simp] theorem run_write (off : ℕ) (v : UInt8) (mem : Bytes) :
    write off v mem = ⟨(), Function.update mem off v, [.write off]⟩ := rfl

theorem run_readBytes (off n : ℕ) (mem : Bytes) :
    readBytes off n mem = ⟨(List.range n).map fun k => mem (off + k), mem,
      (List.range n).map fun k => .read (off + k)⟩ := by
  induction n generalizing off with
  | zero => rfl
  | succ n ih =>
    rw [readBytes, run_bind, run_bind, run_read, ih]
    simp only [run_pure, List.append_nil, List.range_succ_eq_map, List.map_cons, List.map_map,
      Function.comp_def,
      Nat.add_zero, List.singleton_append]
    simp only [Nat.add_assoc, Nat.add_comm 1]

/-- From `mem`, every access is below `n`, and `Q` holds of the value and of the memory in the
end. -/
structure Sat (n : ℕ) (m : Traced α) (mem : Bytes) (Q : α → Bytes → Prop) : Prop where
  below : ∀ a ∈ (m mem).log, a.off < n
  post : Q (m mem).value (m mem).mem

namespace Sat

variable {n : ℕ} {m : Traced α} {mem : Bytes} {Q : α → Bytes → Prop}

theorem pure {a : α} (h : Q a mem) : Sat n (Pure.pure a) mem Q := ⟨by simp, h⟩

theorem bind {k : α → Traced β} {R : α → Bytes → Prop} {Q : β → Bytes → Prop} (hm : Sat n m mem R)
    (hk : ∀ a mem', R a mem' → Sat n (k a) mem' Q) : Sat n (m >>= k) mem Q := by
  have hrest := hk _ _ hm.post
  refine ⟨fun a ha => ?_, hrest.post⟩
  rw [run_bind, List.mem_append] at ha
  rcases ha with ha | ha
  · exact hm.below a ha
  · exact hrest.below a ha

/-- A program of three parts, from what holds of the first two. -/
theorem assoc {γ : Type} {k : α → Traced β} {l : β → Traced γ} {Q : γ → Bytes → Prop}
    (h : Sat n (m >>= k >>= l) mem Q) :
    Sat n (m >>= fun a => k a >>= l) mem Q := by
  constructor
  · intro a ha
    apply h.below a
    simpa only [run_bind, List.append_assoc] using ha
  · exact h.post

theorem mono {R : α → Bytes → Prop} (h : Sat n m mem R) (hRQ : ∀ a mem', R a mem' → Q a mem') :
    Sat n m mem Q :=
  ⟨h.below, hRQ _ _ h.post⟩

theorem ite {p : Prop} [Decidable p] {m' : Traced α} (hpos : p → Sat n m mem Q)
    (hneg : ¬p → Sat n m' mem Q) :
    Sat n (if p then m else m') mem Q := by
  by_cases h : p
  · rw [if_pos h]
    exact hpos h
  · rw [if_neg h]
    exact hneg h

theorem read {off : ℕ} (h : off < n) :
    Sat n (read off) mem fun b mem' => mem off = b ∧ mem = mem' :=
  ⟨by simpa using h, rfl, rfl⟩

theorem write {off : ℕ} {v : UInt8} (h : off < n) :
    Sat n (write off v) mem fun _ mem' => Function.update mem off v = mem' :=
  ⟨by simpa using h, rfl⟩

theorem readBytes {off count : ℕ} (h : count = 0 ∨ off + count ≤ n) :
    Sat n (readBytes off count) mem fun l mem' =>
      ((List.range count).map fun k => mem (off + k)) = l ∧ mem = mem' := by
  rw [show Traced.readBytes off count = fun mem => _ from funext (run_readBytes off count)]
  refine ⟨fun a ha => ?_, rfl, rfl⟩
  obtain ⟨k, hk, rfl⟩ := List.mem_map.mp ha
  have hlt := List.mem_range.mp hk
  show off + k < n
  omega

end Sat

end Traced
