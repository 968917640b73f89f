import X86Kernel.Usr.Map
import Mathlib.Data.List.GetD
import Mathlib.Tactic

/-! The hash map over whole runs, against the finite map that it is for. -/
namespace X86Kernel.Usr

theorem strequ_iff (str1 str2 : List UInt8) : strequ str1 str2 = true ↔ str1 = str2 := by
  unfold strequ
  rw [Bool.and_eq_true, beq_iff_eq, List.all_eq_true]
  constructor
  · rintro ⟨hlen, hall⟩
    refine List.ext_getElem hlen fun i h1 h2 => ?_
    have := beq_iff_eq.mp (hall i (List.mem_range.mpr h1))
    rwa [List.getD_eq_getElem _ _ h1, List.getD_eq_getElem _ _ h2] at this
  · rintro rfl
    exact ⟨rfl, fun _ _ => beq_iff_eq.mpr rfl⟩

theorem powerFrom_spec {size turns power r : ℕ}
    (hpower : (∃ p, power = 2 ^ p ∧ p ≤ 31) ∨ (power = 0 ∧ 0 < size))
    (h : powerFrom size turns power = some r) : ∃ p, r = 2 ^ p := by
  induction turns generalizing power with
  | zero =>
    rw [powerFrom] at h
    split_ifs at h with hlt
    obtain rfl := Option.some.inj h
    rcases hpower with ⟨p, hp, -⟩ | ⟨rfl, hpos⟩
    · exact ⟨p, hp⟩
    · exact absurd hpos hlt
  | succ turns ih =>
    rw [powerFrom] at h
    split_ifs at h with hlt
    · refine ih ?_ h
      rcases hpower with ⟨p, rfl, hp⟩ | ⟨rfl, hpos⟩
      · rcases Nat.lt_or_ge p 31 with hp' | hp'
        · refine .inl ⟨p + 1, ?_, by omega⟩
          rw [← pow_succ, Nat.mod_eq_of_lt]
          exact Nat.pow_lt_pow_right (by norm_num) (by omega)
        · obtain rfl : p = 31 := by omega
          exact .inr ⟨by norm_num, by omega⟩
      · exact .inr ⟨by norm_num, hpos⟩
    · obtain rfl := Option.some.inj h
      rcases hpower with ⟨p, hp, -⟩ | ⟨rfl, hpos⟩
      · exact ⟨p, hp⟩
      · exact absurd hpos hlt

namespace Map

/-- The key in a slot that is occupied. -/
def keyAt (m : Map) (index : ℕ) : Option (List UInt8) :=
  if (m.table index).occupied then some (m.table index).key else none

/-- The slot that the search for a key begins at. -/
def home (n : ℕ) (key : List UInt8) : ℕ := hashFnv1a key % n

theorem mapInit_spec {size : ℕ} {m : Map} (h : mapInit size = some m) :
    (∃ p, m.size = 2 ^ p) ∧ m.keyAt = (fun _ => none) ∧ m.count = 0 := by
  obtain ⟨power, hpower, rfl⟩ := Option.map_eq_some_iff.mp h
  exact ⟨powerFrom_spec (.inl ⟨0, rfl, by norm_num⟩) hpower, rfl, rfl⟩

theorem and_mask {p : ℕ} (x : ℕ) : x &&& (2 ^ p - 1) = x % 2 ^ p :=
  Nat.and_two_pow_sub_one_eq_mod x p

theorem mod_next {n index : ℕ} (h : index < n) : (index + 1) % n = Probe.next n index := by
  unfold Probe.next
  split_ifs with hlt
  · exact Nat.mod_eq_of_lt hlt
  · rw [show index + 1 = n by omega, Nat.mod_self]

/-- The loop of the code stops where it began; that is after as many slots as there are. -/
theorem probe_eq {m : Map} {p : ℕ} (hsize : m.size = 2 ^ p) (key : List UInt8)
    {start turns index : ℕ} (hstart : start < m.size) (hindex : index < m.size)
    (hturns : Probe.dist m.size start index + turns = m.size) :
    m.probe key start turns index = Probe.search m.keyAt m.size key turns index := by
  induction turns generalizing index with
  | zero => rfl
  | succ turns ih =>
    have hnext : (index + 1) &&& (m.size - 1) = Probe.next m.size index := by
      rw [← mod_next hindex, hsize, and_mask]
    rw [probe, Probe.search, hnext]
    cases hocc : (m.table index).occupied with
    | false =>
      rw [show m.keyAt index = none by rw [keyAt, hocc]; rfl]
      rfl
    | true =>
      rw [show m.keyAt index = some (m.table index).key by rw [keyAt, hocc]; rfl, if_pos rfl]
      dsimp only
      by_cases hkey : (m.table index).key = key
      · rw [if_pos ((strequ_iff _ _).mpr hkey), if_pos hkey]
      · rw [if_neg fun h => hkey ((strequ_iff _ _).mp h), if_neg hkey]
        by_cases hlast : turns = 0
        · -- the next slot is the first one again
          subst hlast
          have hwrap : Probe.next m.size index = start := by
            refine Probe.eq_of_dist hstart (Probe.next_lt hindex) hstart ?_
            rw [Probe.dist_self]
            unfold Probe.dist Probe.next at *
            split_ifs at * <;> omega
          rw [if_pos hwrap]
          rfl
        · have hdist := Probe.dist_next hstart hindex (by omega)
          rw [if_neg, ih (Probe.next_lt hindex) (by omega)]
          intro he
          rw [he, Probe.dist_self] at hdist
          omega

theorem probeKey_eq {m : Map} {p : ℕ} (hsize : m.size = 2 ^ p) (key : List UInt8) :
    m.probeKey key = Probe.search m.keyAt m.size key m.size (home m.size key) := by
  have hhome : hashFnv1a key &&& (m.size - 1) = home m.size key := by
    unfold home
    rw [hsize, and_mask]
  have hlt : home m.size key < m.size := Nat.mod_lt _ (by rw [hsize]; positivity)
  unfold probeKey
  rw [hhome]
  exact probe_eq hsize key hlt hlt (by rw [Probe.dist_self, Nat.zero_add])

end Map

theorem Map.keyAt_setEntry (m : Map) (i : ℕ) (entry : MapEntry) :
    (m.setEntry i entry).keyAt = Function.update m.keyAt i
      (if entry.occupied then some entry.key else none) := by
  funext j
  by_cases hj : j = i
  · subst hj
    simp [Map.keyAt, Map.setEntry]
  · simp [Map.keyAt, Map.setEntry, hj]

theorem keyAt_occupied {m : Map} {i : ℕ} {k : List UInt8} (h : m.keyAt i = some k) :
    (m.table i).occupied = true ∧ (m.table i).key = k := by
  unfold Map.keyAt at h
  split_ifs at h with hocc
  exact ⟨hocc, Option.some.inj h⟩

/-- The table and the finite map that it holds. -/
structure Rep (m : Map) (f : Contents) : Prop where
  size : ∃ p, m.size = 2 ^ p
  ok : Probe.Ok (Map.home m.size) m.size m.keyAt
  valid : ∀ i k, i < m.size → m.keyAt i = some k → k.length ≤ keyMaxLen ∧ 0 ∉ k
  value : ∀ i (key : Key), i < m.size → m.keyAt i = some key.val → f key = some (m.table i).value
  holds : ∀ key : Key, f key ≠ none → ∃ i < m.size, m.keyAt i = some key.val
  finite : f.keys.Finite
  count : m.count = f.keys.ncard

theorem rep_init {size : ℕ} {m : Map} (h : Map.mapInit size = some m) : Rep m fun _ => none := by
  obtain ⟨hsize, hkeys, hcount⟩ := Map.mapInit_spec h
  have hempty : Contents.keys (fun _ => none) = ∅ := by
    ext key
    simp [Contents.keys]
  refine ⟨hsize, by rw [hkeys]; exact Probe.ok_empty, ?_, ?_, fun key hne => absurd rfl hne, ?_, ?_⟩
  · intro i k _ hk
    rw [hkeys] at hk
    exact absurd hk (by simp)
  · intro i key _ hk
    rw [hkeys] at hk
    exact absurd hk (by simp)
  · rw [hempty]
    exact Set.finite_empty
  · rw [hempty, Set.ncard_empty, hcount]

namespace Rep

variable {m : Map} {f : Contents}

theorem home_lt (h : Rep m f) (key : List UInt8) : Map.home m.size key < m.size := by
  obtain ⟨p, hp⟩ := h.size
  exact Nat.mod_lt _ (by rw [hp]; positivity)

/-- What the search for a key says of the finite map. -/
theorem probeKey_cases (h : Rep m f) (key : Key) :
    (∃ i < m.size, m.probeKey key = .found i ∧ m.keyAt i = some key.val ∧
      f key = some (m.table i).value) ∨
      (f key = none ∧ (∀ i < m.size, m.keyAt i ≠ some key.val) ∧
        ((∃ i, m.probeKey key = .free i ∧
          Probe.Says m.keyAt m.size (Map.home m.size key) key.val (.free i)) ∨
          m.probeKey key = .full ∧ m.size ≤ f.keys.ncard)) := by
  obtain ⟨p, hp⟩ := h.size
  by_cases hmem : ∃ i < m.size, m.keyAt i = some key.val
  · obtain ⟨i, hi, hk⟩ := hmem
    refine .inl ⟨i, hi, ?_, hk, h.value i key hi hk⟩
    rw [Map.probeKey_eq hp]
    exact h.ok.search_of_mem (h.home_lt key) hi hk
  · have habsent : ∀ i < m.size, m.keyAt i ≠ some key.val := fun i hi hk => hmem ⟨i, hi, hk⟩
    have hnone : f key = none := by
      by_contra hne
      exact hmem (h.holds key hne)
    refine .inr ⟨hnone, habsent, ?_⟩
    have hspec := Probe.search_spec m.keyAt key.val (h.home_lt key)
    rw [← Map.probeKey_eq hp] at hspec
    cases hs : m.probeKey key with
    | found i =>
      rw [hs] at hspec
      exact absurd hspec.2.1 (habsent i hspec.1)
    | free i =>
      rw [hs] at hspec
      exact .inl ⟨i, rfl, hspec⟩
    | full =>
      rw [hs] at hspec
      -- every slot holds another key
      refine .inr ⟨rfl, ?_⟩
      have hle := h.ok.le_ncard hspec (h.finite.image Subtype.val) fun i hi k hk =>
        ⟨⟨k, h.valid i k hi hk⟩, by
          show f ⟨k, _⟩ ≠ none
          rw [h.value i ⟨k, h.valid i k hi hk⟩ hi hk]
          simp, rfl⟩
      rwa [Set.ncard_image_of_injective _ Subtype.val_injective] at hle

theorem keys_update_some (f : Contents) (key : Key) (v : ℕ) :
    Contents.keys (Function.update f key (some v)) = Set.insert key f.keys := by
  ext key'
  show Function.update f key (some v) key' ≠ none ↔ key' = key ∨ f key' ≠ none
  rw [Function.update_apply]
  split_ifs with he
  · simp [he]
  · simp [he]

theorem keys_update_none (f : Contents) (key : Key) :
    Contents.keys (Function.update f key none) = f.keys \ {key} := by
  ext key'
  show Function.update f key none key' ≠ none ↔ f key' ≠ none ∧ key' ∉ ({key} : Set Key)
  rw [Function.update_apply, Set.mem_singleton_iff]
  split_ifs with he
  · simp [he]
  · simp [he]

theorem insert (h : Rep m f) (key : Key) (v : ℕ)
    (hfits : m.count < m.size ∨ ∃ i < m.size, m.keyAt i = some key.val) :
    Rep (m.mapInsert key v) (Function.update f key (some v)) := by
  unfold Map.mapInsert
  rcases h.probeKey_cases key
    with ⟨i, hi, hp, hk, hf⟩ | ⟨hnone, habsent, ⟨i, hp, hfree⟩ | ⟨hp, hfull⟩⟩
  · -- the key is there, and only its value changes
    obtain ⟨hocc, hkey⟩ := keyAt_occupied hk
    rw [hp]
    dsimp only
    have hsame : (m.setEntry i { m.table i with value := v }).keyAt = m.keyAt := by
      rw [Map.keyAt_setEntry]
      dsimp only
      rw [hocc, if_pos rfl, hkey, ← hk, Function.update_eq_self]
    have hkeys : Contents.keys (Function.update f key (some v)) = f.keys := by
      rw [keys_update_some]
      exact Set.insert_eq_of_mem (show f key ≠ none by rw [hf]; simp)
    refine ⟨h.size, by rw [hsame]; exact h.ok, by rw [hsame]; exact h.valid, ?_, ?_,
      by rw [hkeys]; exact h.finite,
      by rw [hkeys]; exact h.count⟩
    · intro j key' hj hk'
      rw [hsame] at hk'
      show Function.update f key (some v) key' =
          some (Function.update m.table i { m.table i with value := v } j).value
      by_cases hji : j = i
      · subst hji
        rw [hk] at hk'
        rw [Subtype.ext (Option.some.inj hk'), Function.update_self, Function.update_self]
      · have hne : key' ≠ key := by
          rintro rfl
          exact hji (h.ok.unique j i key'.val hj hi hk' hk)
        rw [Function.update_of_ne hne, Function.update_of_ne hji]
        exact h.value j key' hj hk'
    · intro key' hne
      rw [hsame]
      by_cases he : key' = key
      · exact ⟨i, hi, he ▸ hk⟩
      · rw [Function.update_of_ne he] at hne
        exact h.holds key' hne
  · rw [hp]
    dsimp only
    have htake : key.val.take keyMaxLen = key.val := List.take_of_length_le key.property.1
    have hkeyAt :
          ({ m.setEntry i ⟨key.val.take keyMaxLen, v, true⟩ with count := m.count + 1 } :
            Map).keyAt =
        Function.update m.keyAt i (some key.val) := by
      show (m.setEntry i ⟨key.val.take keyMaxLen, v, true⟩).keyAt = _
      rw [Map.keyAt_setEntry, htake]
      rfl
    have hnew : key ∉ f.keys := fun hmem => hmem hnone
    have hi := hfree.1
    refine ⟨h.size, ?_, ?_, ?_, ?_, ?_, ?_⟩
    · rw [hkeyAt]
      exact h.ok.insert habsent hfree
    · intro j k hj hk
      rw [hkeyAt, Function.update_apply] at hk
      split_ifs at hk
      · obtain rfl := Option.some.inj hk
        exact key.property
      · exact h.valid j k hj hk
    · intro j key' hj hk
      rw [hkeyAt, Function.update_apply] at hk
      show Function.update f key (some v) key' =
          some (Function.update m.table i ⟨key.val.take keyMaxLen, v, true⟩ j).value
      split_ifs at hk with hji
      · rw [← Subtype.ext (Option.some.inj hk), hji, Function.update_self, Function.update_self]
      · have hne : key' ≠ key := by
          rintro rfl
          exact habsent j hj hk
        rw [Function.update_of_ne hne, Function.update_of_ne hji]
        exact h.value j key' hj hk
    · intro key' hne
      rw [hkeyAt]
      by_cases he : key' = key
      · exact ⟨i, hi, by rw [Function.update_self, he]⟩
      · rw [Function.update_of_ne he] at hne
        obtain ⟨j, hj, hk⟩ := h.holds key' hne
        refine ⟨j, hj, ?_⟩
        rw [Function.update_of_ne, hk]
        rintro rfl
        rw [hfree.2.1] at hk
        exact absurd hk (by simp)
    · rw [keys_update_some]
      exact h.finite.insert key
    · rw [keys_update_some]
      show m.count + 1 = _
      rw [h.count]
      exact (Set.ncard_insert_of_notMem hnew h.finite).symm
  · exfalso
    rcases hfits with hlt | ⟨i, hi, hk⟩
    · rw [h.count] at hlt
      omega
    · exact habsent i hi hk

theorem lookup (h : Rep m f) (key : Key) : m.mapLookup key = (f key).getD 0 := by
  unfold Map.mapLookup
  rcases h.probeKey_cases key with ⟨i, -, hp, -, hf⟩ | ⟨hnone, -, ⟨i, hp, -⟩ | ⟨hp, -⟩⟩
  · rw [hp, hf]
    rfl
  · rw [hp, hnone]
    rfl
  · rw [hp, hnone]
    rfl

theorem remove (h : Rep m f) (key : Key)
    (hclear : ∀ i j k, i < m.size → j < m.size → m.keyAt i = some key.val →
      m.keyAt j = some k → j ≠ i →
      ¬Probe.dist m.size (Map.home m.size k) i < Probe.dist m.size (Map.home m.size k) j) :
    Rep (m.mapRemove key).1 (Function.update f key none) ∧
    (m.mapRemove key).2 = (f key).isSome := by
  have hgone : f key = none → Rep m (Function.update f key none) := by
    intro hnone
    rwa [Function.update_eq_self_iff.mpr hnone.symm]
  unfold Map.mapRemove
  rcases h.probeKey_cases key with ⟨i, hi, hp, hk, hf⟩ | ⟨hnone, -, ⟨i, hp, -⟩ | ⟨hp, -⟩⟩
  · rw [hp, hf]
    dsimp only
    have hkeyAt :
          ({ m.setEntry i { m.table i with occupied := false } with count := m.count - 1 } :
            Map).keyAt =
        Function.update m.keyAt i none := by
      show (m.setEntry i { m.table i with occupied := false }).keyAt = _
      rw [Map.keyAt_setEntry]
      rfl
    have hother : ∀ j (key' : Key), j < m.size → Function.update m.keyAt i none j = some key'.val →
        j ≠ i ∧ key' ≠ key ∧ m.keyAt j = some key'.val := by
      intro j key' hj hk'
      rw [Function.update_apply] at hk'
      split_ifs at hk' with hji
      refine ⟨hji, ?_, hk'⟩
      rintro rfl
      exact hji (h.ok.unique j i key'.val hj hi hk' hk)
    refine ⟨⟨h.size, ?_, ?_, ?_, ?_, ?_, ?_⟩, rfl⟩
    · rw [hkeyAt]
      exact h.ok.remove fun j k hj hji hk' => hclear i j k hi hj hk hk' hji
    · intro j k hj hk'
      rw [hkeyAt, Function.update_apply] at hk'
      split_ifs at hk'
      exact h.valid j k hj hk'
    · intro j key' hj hk'
      rw [hkeyAt] at hk'
      obtain ⟨hji, hne, hk'⟩ := hother j key' hj hk'
      show Function.update f key none key' =
          some (Function.update m.table i { m.table i with occupied := false } j).value
      rw [Function.update_of_ne hne, Function.update_of_ne hji]
      exact h.value j key' hj hk'
    · intro key' hne
      rw [hkeyAt]
      by_cases he : key' = key
      · rw [he, Function.update_self] at hne
        exact absurd rfl hne
      · rw [Function.update_of_ne he] at hne
        obtain ⟨j, hj, hk'⟩ := h.holds key' hne
        refine ⟨j, hj, ?_⟩
        rw [Function.update_of_ne, hk']
        rintro rfl
        rw [hk] at hk'
        exact he (Subtype.ext (Option.some.inj hk').symm)
    · rw [keys_update_none]
      exact h.finite.sdiff
    · rw [keys_update_none]
      show m.count - 1 = _
      rw [h.count]
      exact (Set.ncard_sdiff_singleton_of_mem (show f key ≠ none by rw [hf]; simp)).symm
  · rw [hp, hnone]
    exact ⟨hgone hnone, rfl⟩
  · rw [hp, hnone]
    exact ⟨hgone hnone, rfl⟩

/-- A key on whose way another one is removed is not found any more. -/
theorem lookup_lost (h : Rep m f) {key other : Key} {i j : ℕ} (hi : i < m.size) (hj : j < m.size)
    (hk : m.keyAt i = some key.val) (hk' : m.keyAt j = some other.val)
    (hway : Probe.dist m.size (Map.home m.size other) i <
      Probe.dist m.size (Map.home m.size other) j) :
    (m.mapRemove key).1.mapLookup other = 0 := by
  obtain ⟨p, hp⟩ := h.size
  have hfound : m.probeKey key = .found i := by
    rw [Map.probeKey_eq hp]
    exact h.ok.search_of_mem (h.home_lt key) hi hk
  obtain ⟨free, hfree⟩ := h.ok.search_lost (h.home_lt other) hi hj hk' hway
  unfold Map.mapRemove
  rw [hfound]
  dsimp only
  generalize hm :
    ({ m.setEntry i { m.table i with occupied := false } with count := m.count - 1 } : Map) = m'
  have hsize : m'.size = m.size := by rw [← hm]; rfl
  have hkeyAt : m'.keyAt = Function.update m.keyAt i none := by
    rw [← hm]
    show (m.setEntry i { m.table i with occupied := false }).keyAt = _
    rw [Map.keyAt_setEntry]
    rfl
  unfold Map.mapLookup
  rw [Map.probeKey_eq (hsize.trans hp), hkeyAt, hsize, hfree]

end Rep

/-- An insert that leaves no more entries than slots. -/
def MapOp.Fits (m : Map) : MapOp → Prop
  | .insert key _ => m.count < m.size ∨ ∃ i < m.size, m.keyAt i = some key.val
  | _ => True

/-- A key is removed from a slot that is not on the way from another key's hash to that key. -/
def MapOp.Clear (m : Map) : MapOp → Prop
  | .remove key =>
    ∀ i j k, i < m.size → j < m.size → m.keyAt i = some key.val → m.keyAt j = some k → j ≠ i →
      ¬Probe.dist m.size (Map.home m.size k) i < Probe.dist m.size (Map.home m.size k) j
  | _ => True

theorem Rep.exec {m : Map} {f : Contents} (h : Rep m f) (op : MapOp) (hfits : op.Fits m)
    (hclear : op.Clear m) :
    Rep (mapExec m op).1 (f.exec op).1 ∧ (mapExec m op).2 = (f.exec op).2 := by
  cases op with
  | insert key v => exact ⟨h.insert key v hfits, rfl⟩
  | lookup key => exact ⟨h, congrArg MapAnswer.value (h.lookup key)⟩
  | remove key =>
    obtain ⟨hrep, hanswer⟩ := h.remove key hclear
    exact ⟨hrep, congrArg MapAnswer.removed hanswer⟩

/-- The answers of the table are those of the finite map, each key has one slot, and the keys are
counted, as long as no key is removed from the way to another one. -/
theorem map_refines {size : ℕ} {m : Map} (hm : Map.mapInit size = some m) (ops : List MapOp)
    (h : Machine.Along mapExec (fun m op => op.Fits m ∧ op.Clear m) m ops) :
    (Machine.run mapExec m ops).2 = (Machine.run Contents.exec (fun _ => none) ops).2 ∧
      (∀ i j k, i < (Machine.run mapExec m ops).1.size → j < (Machine.run mapExec m ops).1.size →
        (Machine.run mapExec m ops).1.keyAt i = some k →
        (Machine.run mapExec m ops).1.keyAt j = some k → i = j) ∧
      (Machine.run mapExec m ops).1.count =
      (Contents.keys (Machine.run Contents.exec (fun _ => none) ops).1).ncard := by
  obtain ⟨hrep, hanswers⟩ :=
    Machine.run_simulates (fun _ _ op hR hop => hR.exec op hop.1 hop.2) (rep_init hm) h
  exact ⟨hanswers, hrep.ok.unique, hrep.count⟩

/-- Keys of one character. -/
def letter (c : UInt8) (h : 0 ≠ c) : Key := ⟨[c], by simp [keyMaxLen], by simpa using h⟩

theorem map_refines_two :
    let m : Map := ⟨fun _ => ⟨[], 0, false⟩, 2, 0⟩
    let ops : List MapOp := [.insert (letter 97 (by decide)) 5, .insert (letter 99 (by decide)) 7,
      .remove (letter 99 (by decide)), .lookup (letter 97 (by decide))]
    Map.mapInit 2 = some m ∧
      (Machine.run mapExec m ops).2 = (Machine.run Contents.exec (fun _ => none) ops).2 := by
  intro m ops
  have hm : Map.mapInit 2 = some m := rfl
  have hclear :
      MapOp.Clear (Machine.run mapExec m (ops.take 2)).1 (.remove (letter 99 (by decide))) := by
    intro i j k hi hj hk hk' hne
    have hsize : (Machine.run mapExec m (ops.take 2)).1.size = 2 := by decide +kernel
    have hfirst : (Machine.run mapExec m (ops.take 2)).1.keyAt 0 = some [97] := by decide +kernel
    rw [hsize] at hi hj ⊢
    interval_cases i
    · rw [hfirst] at hk
      exact absurd (Option.some.inj hk) (by decide)
    · obtain rfl : j = 0 := by omega
      rw [hfirst] at hk'
      obtain rfl := Option.some.inj hk'
      decide +kernel
  exact ⟨hm,
    (map_refines hm ops ⟨⟨.inl (by decide +kernel), trivial⟩, ⟨.inl (by decide +kernel), trivial⟩,
    ⟨trivial, hclear⟩, ⟨trivial, trivial⟩, trivial⟩).1⟩

/-- Two keys with one hash: without the first, the second is not found. -/
theorem lookup_after_remove :
    let ops : List MapOp := [.insert (letter 97 (by decide)) 5, .insert (letter 99 (by decide)) 7,
      .remove (letter 97 (by decide)), .lookup (letter 99 (by decide))]
    let m : Map := ⟨fun _ => ⟨[], 0, false⟩, 2, 0⟩
    Map.mapInit 2 = some m ∧ ((Machine.run mapExec m ops).2.map Prod.snd).getLast? =
      some (.value 0) ∧
      ((Machine.run Contents.exec (fun _ => none) ops).2.map Prod.snd).getLast? =
      some (.value 7) := by
  refine ⟨rfl, ?_, ?_⟩
  · decide +kernel
  · decide +kernel

end X86Kernel.Usr
