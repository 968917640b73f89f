import X86Kernel.Lib.Probe
import X86Kernel.Lib.Run
import Mathlib.Data.UInt

/-! The hash map of `usr/lib/map.c`. -/
namespace X86Kernel.Usr

def keyMaxLen : ℕ := 31

/-- `map_entry_t`; `key` is the string that the field holds. -/
structure MapEntry where
  key : List UInt8
  value : ℕ
  occupied : Bool

structure Map where
  table : ℕ → MapEntry
  size : ℕ
  count : ℕ

/-- Two strings of one length with the same characters. -/
def strequ (str1 str2 : List UInt8) : Bool :=
  str1.length == str2.length && (List.range str1.length).all fun i => str1.getD i 0 == str2.getD i 0

def hashFnv1a (key : List UInt8) : ℕ :=
  key.foldl (fun hash c => (hash ^^^ c.toNat) * 16777619 % 2 ^ 32) 2166136261

/-- The loop of `map_init`, for 32 turns: `power` is a `uint32_t`, so that no further turn ends
it. -/
def powerFrom (size : ℕ) : ℕ → ℕ → Option ℕ
  | 0, power => if power < size then none else some power
  | turns + 1, power =>
    if power < size then powerFrom size turns (power * 2 % 2 ^ 32) else some power

namespace Map

/-- `map_init`, the table being allocated and zeroed; `none` where it does not return. -/
def mapInit (size : ℕ) : Option Map :=
  (powerFrom size 32 1).map fun power => ⟨fun _ => ⟨[], 0, false⟩, power, 0⟩

/-- The loop that the three operations share: where it finds the key, a slot that is not occupied,
or neither. -/
def probe (m : Map) (key : List UInt8) (start : ℕ) : ℕ → ℕ → Probe.Result
  | 0, _ => .full
  | turns + 1, index =>
    if (m.table index).occupied then
      if strequ (m.table index).key key then .found index
      else
        let index := (index + 1) &&& (m.size - 1)
        if index = start then .full else probe m key start turns index
    else .free index

/-- The loop from the slot of the key's hash; it ends within `size` turns. -/
def probeKey (m : Map) (key : List UInt8) : Probe.Result :=
  m.probe key (hashFnv1a key &&& (m.size - 1)) m.size (hashFnv1a key &&& (m.size - 1))

def setEntry (m : Map) (index : ℕ) (entry : MapEntry) : Map :=
  { m with table := Function.update m.table index entry }

def mapInsert (m : Map) (key : List UInt8) (value : ℕ) : Map :=
  match m.probeKey key with
  | .found index => m.setEntry index { m.table index with value := value }
  | .full => m
  | .free index => { m.setEntry index ⟨key.take keyMaxLen, value, true⟩ with count := m.count + 1 }

/-- `map_lookup`, with 0 for NULL. -/
def mapLookup (m : Map) (key : List UInt8) : ℕ :=
  match m.probeKey key with
  | .found index => (m.table index).value
  | _ => 0

def mapRemove (m : Map) (key : List UInt8) : Map × Bool :=
  match m.probeKey key with
  | .found index =>
    ({ m.setEntry index { m.table index with occupied := false } with count := m.count - 1 }, true)
  | _ => (m, false)

end Map

/-- Keys of at most `KEY_MAX_LEN` characters. -/
abbrev Key := { key : List UInt8 // key.length ≤ keyMaxLen ∧ 0 ∉ key }

inductive MapOp where
  | insert (key : Key) (value : ℕ)
  | lookup (key : Key)
  | remove (key : Key)

inductive MapAnswer where
  | done
  | value (v : ℕ)
  | removed (b : Bool)
  deriving DecidableEq

def mapExec (m : Map) : MapOp → Map × MapAnswer
  | .insert key value => (m.mapInsert key value, .done)
  | .lookup key => (m, .value (m.mapLookup key))
  | .remove key => ((m.mapRemove key).1, .removed (m.mapRemove key).2)

/-- What the table is for: a finite map. -/
abbrev Contents := Key → Option ℕ

namespace Contents

def exec (f : Contents) : MapOp → Contents × MapAnswer
  | .insert key value => (Function.update f key (some value), .done)
  | .lookup key => (f, .value ((f key).getD 0))
  | .remove key => (Function.update f key none, .removed (f key).isSome)

def keys (f : Contents) : Set Key := { key | f key ≠ none }

end Contents

end X86Kernel.Usr
