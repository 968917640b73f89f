import X86Kernel.Usr.Interp
import Mathlib.Data.Finset.Card

/-! The variables of the interpreter, whatever was set and freed before: what is set is found, as
long as there is room. -/
namespace X86Kernel.Usr

namespace Variables

variable (v : Variables)

/-- The variable that a pointer points to. -/
def pointee : ℕ → Option Var
  | 0 => none
  | p + 1 => v.allocated[p]?

/-- The name is found. -/
def has (name : Text) : Bool :=
  match v.map.probeKey name with
  | .found _ => true
  | _ => false

/-- The slots that nothing occupies. -/
def freeSlots : Finset ℕ := (Finset.range v.map.size).filter fun i => v.map.keyAt i = none

/-- A function variable of this name, also one that a search does not reach. -/
def Stale (name : Text) : Prop :=
  ∃ i < v.map.size, v.map.keyAt i = some name ∧ ∃ location,
    v.pointee (v.map.table i).value = some (.func location)

/-- There is room for the names that are not found yet. -/
def Room (names : Finset Text) : Prop :=
  (names.filter fun name => v.has name = false).card ≤ v.freeSlots.card

variable {v} {name other : Text} {x : Var}

theorem lookup_eq : v.lookup name = v.pointee (v.map.mapLookup name) := by
  unfold lookup pointee
  cases v.map.mapLookup name <;> rfl

theorem home_lt (name : Text) : Map.home v.map.size name < v.map.size := by
  obtain ⟨p, hp⟩ := v.size
  exact Nat.mod_lt _ (by rw [hp]; positivity)

theorem searched (name : Text) :
    Probe.Says v.map.keyAt v.map.size (Map.home v.map.size name) name (v.map.probeKey name) := by
  obtain ⟨p, hp⟩ := v.size
  rw [Map.probeKey_eq hp]
  exact Probe.search_spec _ _ (home_lt name)

theorem lookup_of_found {i : ℕ} (h : v.map.probeKey name = .found i) :
    v.lookup name = v.pointee (v.map.table i).value := by
  rw [lookup_eq, Map.mapLookup, h]

/-- A variable that is looked up is in a slot. -/
theorem exists_found (h : v.lookup name = some x) :
    ∃ i < v.map.size, v.map.probeKey name = .found i ∧
    v.map.keyAt i = some name ∧ v.pointee (v.map.table i).value = some x := by
  have hfound := v.searched name
  cases hprobe : v.map.probeKey name with
  | found i =>
    rw [hprobe] at hfound
    exact ⟨i, hfound.1, rfl, hfound.2.1, (lookup_of_found hprobe).symm.trans h⟩
  | free i =>
    rw [lookup_eq, Map.mapLookup, hprobe] at h
    exact absurd h.symm (Option.some_ne_none x)
  | full =>
    rw [lookup_eq, Map.mapLookup, hprobe] at h
    exact absurd h.symm (Option.some_ne_none x)

theorem not_func_of_not_stale (h : ¬v.Stale name) (location : ℕ) :
    v.lookup name ≠ some (.func location) := by
  intro hlookup
  obtain ⟨i, hi, -, hkey, hpointee⟩ := exists_found hlookup
  exact h ⟨i, hi, hkey, location, hpointee⟩

/-- The pointers of the table keep what they point to. -/
theorem pointee_varSet (i : ℕ) :
    (v.varSet name x).pointee (v.map.table i).value = v.pointee (v.map.table i).value := by
  have hvalid := v.valid i
  unfold pointee varSet
  cases hp : (v.map.table i).value with
  | zero => rfl
  | succ p =>
    dsimp only
    rw [List.getElem?_append_left (by omega)]

theorem pointee_new : (v.varSet name x).pointee (v.allocated.length + 1) = some x := by
  unfold pointee varSet
  dsimp only
  rw [List.getElem?_append_right le_rfl]
  simp

/-- The table after `var_set`, where the name was found. -/
theorem varSet_map_found {i : ℕ} (h : v.map.probeKey name = .found i) : (v.varSet name x).map =
    v.map.setEntry i { v.map.table i with value := v.allocated.length + 1 } := by
  change v.map.mapInsert name _ = _
  unfold Map.mapInsert
  rw [h]

theorem varSet_map_free {i : ℕ} (h : v.map.probeKey name = .free i) : (v.varSet name x).map =
    { v.map.setEntry i ⟨name.take keyMaxLen, v.allocated.length + 1, true⟩ with count :=
      v.map.count + 1 } := by
  change v.map.mapInsert name _ = _
  unfold Map.mapInsert
  rw [h]

theorem varSet_map_full (h : v.map.probeKey name = .full) : (v.varSet name x).map = v.map := by
  change v.map.mapInsert name _ = _
  unfold Map.mapInsert
  rw [h]

@[simp] theorem varSet_size : (v.varSet name x).map.size = v.map.size := Map.mapInsert_size ..

theorem keyAt_varSet_found {i : ℕ} (h : v.map.probeKey name = .found i) :
    (v.varSet name x).map.keyAt = v.map.keyAt := by
  have hfound := v.searched name
  rw [h] at hfound
  obtain ⟨hocc, hkey⟩ := keyAt_occupied hfound.2.1
  rw [varSet_map_found h, Map.keyAt_setEntry]
  dsimp only
  rw [if_pos hocc, hkey, ← hfound.2.1, Function.update_eq_self]

theorem keyAt_varSet_free {i : ℕ} (h : v.map.probeKey name = .free i)
    (hlen : name.length ≤ keyMaxLen) :
    (v.varSet name x).map.keyAt = Function.update v.map.keyAt i (some name) := by
  have hentry := Map.keyAt_setEntry v.map i ⟨name.take keyMaxLen, v.allocated.length + 1, true⟩
  rw [if_pos rfl, List.take_of_length_le hlen] at hentry
  rw [varSet_map_free h, List.take_of_length_le hlen, ← hentry]
  rfl

/-- What `var_set` does to the table: where the name is found its value changes, or it takes a free
slot. -/
theorem varSet_cases (hlen : name.length ≤ keyMaxLen) :
    (∃ i, v.map.probeKey name = .found i ∧ (v.varSet name x).map.keyAt = v.map.keyAt ∧
      (v.varSet name x).map.table = Function.update v.map.table i
        ⟨(v.map.table i).key, v.allocated.length + 1, true⟩) ∨
    (∃ i, v.map.probeKey name = .free i ∧
      (v.varSet name x).map.keyAt = Function.update v.map.keyAt i (some name) ∧
      (v.varSet name x).map.table = Function.update v.map.table i
        ⟨name, v.allocated.length + 1, true⟩) ∨
    v.map.probeKey name = .full ∧ (v.varSet name x).map = v.map := by
  cases hprobe : v.map.probeKey name with
  | found i =>
    have hfound := v.searched name
    rw [hprobe] at hfound
    refine .inl ⟨i, rfl, keyAt_varSet_found hprobe, ?_⟩
    rw [varSet_map_found hprobe, ← (keyAt_occupied hfound.2.1).1]
    rfl
  | free i =>
    refine .inr (.inl ⟨i, rfl, keyAt_varSet_free hprobe hlen, ?_⟩)
    rw [varSet_map_free hprobe, List.take_of_length_le hlen]
    rfl
  | full => exact .inr (.inr ⟨rfl, varSet_map_full hprobe⟩)

/-- A name that is found in a table is found in one where more is taken, in the same slot. -/
theorem probeKey_of_taken {w : Variables} {i : ℕ} (hsize : w.map.size = v.map.size)
    (h : v.map.probeKey name = .found i)
    (hkeys : ∀ j k, v.map.keyAt j = some k → w.map.keyAt j = some k) :
      w.map.probeKey name = .found i := by
  obtain ⟨p, hp⟩ := w.size
  have hfound := v.searched name
  rw [h] at hfound
  obtain ⟨hi, hkey, hbefore⟩ := hfound
  rw [Map.probeKey_eq hp]
  apply Probe.search_eq_found (home_lt name)
  · rw [hsize]
    exact hi
  · exact hkeys i name hkey
  · intro j hj hdist
    rw [hsize] at hj hdist
    obtain ⟨k, hne, hk⟩ := hbefore j hj hdist
    exact ⟨k, hne, hkeys j k hk⟩

theorem keyAt_varSet_of_some (hlen : name.length ≤ keyMaxLen) (j : ℕ) (k : Text)
    (h : v.map.keyAt j = some k) :
    (v.varSet name x).map.keyAt j = some k := by
  rcases varSet_cases (v := v) (x := x) hlen
    with ⟨i, -, hkeys, -⟩ | ⟨i, hprobe, hkeys, -⟩ | ⟨-, hmap⟩
  · rw [hkeys, h]
  · have hfree := v.searched name
    rw [hprobe] at hfree
    have hji : j ≠ i := by
      rintro rfl
      exact Option.some_ne_none k (h.symm.trans hfree.2.1)
    rw [hkeys, Function.update_of_ne hji, h]
  · rw [hmap, h]

/-- What was found stays as it was, under another name. -/
theorem lookup_varSet_of_ne (hlen : name.length ≤ keyMaxLen) (hne : other ≠ name) {y : Var}
    (h : v.lookup other = some y) :
    (v.varSet name x).lookup other = some y := by
  obtain ⟨j, hj, hprobe, hkey, hpointee⟩ := exists_found h
  have hprobe' :=
    probeKey_of_taken (w := v.varSet name x) varSet_size hprobe (keyAt_varSet_of_some hlen)
  have htable : ((v.varSet name x).map.table j).value = (v.map.table j).value := by
    rcases varSet_cases (v := v) (x := x) hlen
      with ⟨i, hfound, -, htable⟩ | ⟨i, hfree, -, htable⟩ | ⟨-, hmap⟩
    · have hi := v.searched name
      rw [hfound] at hi
      have hji : j ≠ i := by
        rintro rfl
        exact hne (Option.some.inj (hkey.symm.trans hi.2.1))
      rw [htable, Function.update_of_ne hji]
    · have hi := v.searched name
      rw [hfree] at hi
      have hji : j ≠ i := by
        rintro rfl
        exact Option.some_ne_none other (hkey.symm.trans hi.2.1)
      rw [htable, Function.update_of_ne hji]
    · rw [hmap]
  rw [lookup_of_found hprobe', htable, pointee_varSet, hpointee]

/-- What is set is found, where there is room. -/
theorem lookup_varSet_self (hlen : name.length ≤ keyMaxLen) (hroom : v.map.probeKey name ≠ .full) :
    (v.varSet name x).lookup name = some x ∧ (v.varSet name x).has name = true := by
  have hslot : ∃ i, (v.varSet name x).map.probeKey name = .found i ∧
      ((v.varSet name x).map.table i).value = v.allocated.length + 1 := by
    rcases varSet_cases (v := v) (x := x) hlen
      with ⟨i, hfound, hkeys, htable⟩ | ⟨i, hfree, hkeys, htable⟩ | ⟨hfull, -⟩
    · refine ⟨i, probeKey_of_taken varSet_size hfound (keyAt_varSet_of_some hlen), ?_⟩
      rw [htable, Function.update_self]
    · have hi := v.searched name
      rw [hfree] at hi
      obtain ⟨p, hp⟩ := (v.varSet name x).size
      refine ⟨i, ?_, by rw [htable, Function.update_self]⟩
      rw [Map.probeKey_eq hp, varSet_size]
      apply Probe.search_eq_found (home_lt name) hi.1
      · rw [hkeys, Function.update_self]
      · intro j hj hdist
        obtain ⟨k, hne, hk⟩ := hi.2.2 j hj hdist
        exact ⟨k, hne, keyAt_varSet_of_some hlen j k hk⟩
    · exact absurd hfull hroom
  obtain ⟨i, hprobe, hvalue⟩ := hslot
  constructor
  · rw [lookup_of_found hprobe, hvalue, pointee_new]
  · unfold has
    rw [hprobe]

/-- No function variable of another name comes up. -/
theorem not_stale_varSet (hlen : name.length ≤ keyMaxLen) (hne : other ≠ name)
    (h : ¬v.Stale other) :
    ¬(v.varSet name x).Stale other := by
  rintro ⟨j, hj, hkey, location, hpointee⟩
  rw [varSet_size] at hj
  rcases varSet_cases (v := v) (x := x) hlen
    with ⟨i, hfound, hkeys, htable⟩ | ⟨i, hfree, hkeys, htable⟩ | ⟨-, hmap⟩
  · have hi := v.searched name
    rw [hfound] at hi
    rw [hkeys] at hkey
    have hji : j ≠ i := by
      rintro rfl
      exact hne (Option.some.inj (hkey.symm.trans hi.2.1))
    rw [htable, Function.update_of_ne hji, pointee_varSet] at hpointee
    exact h ⟨j, hj, hkey, location, hpointee⟩
  · have hji : j ≠ i := by
      rintro rfl
      rw [hkeys, Function.update_self] at hkey
      exact hne (Option.some.inj hkey).symm
    rw [hkeys, Function.update_of_ne hji] at hkey
    rw [htable, Function.update_of_ne hji, pointee_varSet] at hpointee
    exact h ⟨j, hj, hkey, location, hpointee⟩
  · rw [hmap] at hkey hpointee
    rw [pointee_varSet] at hpointee
    exact h ⟨j, hj, hkey, location, hpointee⟩

theorem has_varSet_of_has (hlen : name.length ≤ keyMaxLen) (h : v.has other = true) :
    (v.varSet name x).has other = true := by
  unfold has at h ⊢
  cases hprobe : v.map.probeKey other with
  | found i => rw [probeKey_of_taken varSet_size hprobe (keyAt_varSet_of_some hlen)]
  | free i => simp [hprobe] at h
  | full => simp [hprobe] at h

/-- Setting one of the names keeps room for the others, and there is room for it. -/
theorem Room.varSet {names : Finset Text} (h : v.Room names) (hmem : name ∈ names)
    (hlen : name.length ≤ keyMaxLen) :
    (v.varSet name x).Room names ∧ v.map.probeKey name ≠ .full := by
  unfold Room at h ⊢
  have hsub : (names.filter fun n => (v.varSet name x).has n = false) ⊆ names.filter fun n =>
      v.has n = false := by
    intro n hn
    rw [Finset.mem_filter] at hn ⊢
    refine ⟨hn.1, ?_⟩
    by_contra hhas
    rw [has_varSet_of_has hlen (by simpa using hhas)] at hn
    exact absurd hn.2 (by simp)
  rcases varSet_cases (v := v) (x := x) hlen
    with ⟨i, hfound, hkeys, -⟩ | ⟨i, hfree, hkeys, -⟩ | ⟨hfull, -⟩
  · have hslots : (v.varSet name x).freeSlots = v.freeSlots := by
      unfold freeSlots
      rw [hkeys, varSet_size]
    rw [hslots]
    exact ⟨(Finset.card_le_card hsub).trans h, by simp [hfound]⟩
  · have hi := v.searched name
    rw [hfree] at hi
    have hroom : v.map.probeKey name ≠ .full := by simp [hfree]
    have hhas := (lookup_varSet_self (v := v) (x := x) hlen hroom).2
    have hslots : (v.varSet name x).freeSlots = v.freeSlots.erase i := by
      unfold freeSlots
      rw [hkeys, varSet_size]
      ext j
      rw [Finset.mem_erase, Finset.mem_filter, Finset.mem_filter, Function.update_apply]
      by_cases hj : j = i <;> simp [hj]
    have himem : i ∈ v.freeSlots := by
      unfold freeSlots
      rw [Finset.mem_filter, Finset.mem_range]
      exact ⟨hi.1, hi.2.1⟩
    have hname : name ∈ names.filter fun n => v.has n = false := by
      rw [Finset.mem_filter]
      refine ⟨hmem, ?_⟩
      unfold has
      rw [hfree]
    have hlt : (names.filter fun n => (v.varSet name x).has n = false).card <
        (names.filter fun n => v.has n = false).card := by
      apply Finset.card_lt_card
      refine ⟨hsub, fun hsup => ?_⟩
      have hmem' := (Finset.mem_filter.mp (hsup hname)).2
      rw [hhas] at hmem'
      exact absurd hmem' (by simp)
    rw [hslots, Finset.card_erase_of_mem himem]
    exact ⟨by omega, hroom⟩
  · -- every slot is taken, but there is a name that is not found
    exfalso
    have hi := v.searched name
    rw [hfull] at hi
    have hempty : v.freeSlots = ∅ := by
      unfold freeSlots
      rw [Finset.filter_eq_empty_iff]
      intro j hj
      obtain ⟨k, -, hk⟩ := hi j (Finset.mem_range.mp hj)
      rw [hk]
      exact Option.some_ne_none k
    have hname : name ∈ names.filter fun n => v.has n = false := by
      rw [Finset.mem_filter]
      refine ⟨hmem, ?_⟩
      unfold has
      rw [hfull]
    have hpos := Finset.card_pos.mpr ⟨name, hname⟩
    rw [hempty, Finset.card_empty] at h
    omega

theorem Room.mono {names names' : Finset Text} (h : v.Room names') (hsub : names ⊆ names') :
    v.Room names :=
  (Finset.card_le_card (Finset.filter_subset_filter _ hsub)).trans h

end Variables

end X86Kernel.Usr
