import X86Kernel.Net.Wire

/-! `parse_ip` of `ethernet.c`. -/
namespace X86Kernel.Net

/-- A string up to its NUL; with it, it is an object, which has less than 2^31 bytes. -/
abbrev CString := { s : List UInt8 // 0 ∉ s ∧ s.length + 1 < 2 ^ 31 }

/-- The variables of `parse_ip`, with the indexes of `oct` that were written and every number
computed on the way. -/
structure Scan where
  oct : ℤ → UInt8
  idx : ℤ
  digits : ℤ
  val : ℤ
  written : List ℤ
  values : List ℤ

namespace Scan

/-- A digit is read. -/
def digit (st : Scan) (c : UInt8) : Scan :=
  let val := st.val * 10 + ((c.toNat : ℤ) - 48)
  { st with val := val, values := st.values ++ [st.val * 10, (c.toNat : ℤ) - 48, val] }

def count (st : Scan) : Scan :=
  { st with digits := st.digits + 1, values := st.values ++ [st.digits + 1] }

/-- The end of a group: `oct[idx++] = val`. -/
def store (st : Scan) : Scan :=
  { st with
    oct := Function.update st.oct st.idx (.ofNat st.val.toNat)
    idx := st.idx + 1
    val := 0
    digits := 0
    written := st.written ++ [st.idx]
    values := st.values ++ [st.idx + 1] }

end Scan

/-- The loop from a character on, where the end of the list is the NUL; `false` where it returns. -/
def parseLoop : List UInt8 → Scan → Scan × Bool
  | [], st => if st.digits = 0 ∨ 3 < st.idx then (st, false) else (st.store, true)
  | c :: s, st =>
    if 48 ≤ c ∧ c ≤ 57 then
      if 255 < (st.digit c).val then (st.digit c, false) else parseLoop s (st.digit c).count
    else if c = 46 then
      if st.digits = 0 ∨ 3 < st.idx then (st, false) else parseLoop s st.store
    else (st, false)

/-- `oct` before it is written. -/
def Scan.init (oct : ℤ → UInt8) : Scan := ⟨oct, 0, 0, 0, [], []⟩

def parseIp (oct : ℤ → UInt8) (s : List UInt8) : Option ℕ :=
  let (st, ok) := parseLoop s (.init oct)
  if !ok then none
  else if st.idx ≠ 4 then none
  else some (packIp (st.oct 0) (st.oct 1) (st.oct 2) (st.oct 3))

/-- The number that decimal digits stand for. -/
def decimal (g : List UInt8) : ℕ := g.foldl (fun v c => v * 10 + (c.toNat - 48)) 0

/-- A group of digits, leading zeros allowed, and its value. -/
structure Octet (g : List UInt8) (v : UInt8) : Prop where
  ne_nil : g ≠ []
  digit : ∀ c ∈ g, 48 ≤ c ∧ c ≤ 57
  value : decimal g = v.toNat

/-- Groups with one dot between each two, and their values. -/
inductive Dotted : List UInt8 → List UInt8 → Prop where
  | last {g v} : Octet g v → Dotted g [v]
  | cons {g v s vs} : Octet g v → Dotted s vs → Dotted (g ++ 46 :: s) (v :: vs)

/-! ### One group -/

/-- The value of the digits after those read so far. -/
def valueFrom (val : ℤ) (g : List UInt8) : ℤ :=
  g.foldl (fun v c => v * 10 + ((c.toNat : ℤ) - 48)) val

theorem valueFrom_zero {g : List UInt8} (hg : ∀ c ∈ g, 48 ≤ c ∧ c ≤ 57) :
    valueFrom 0 g = decimal g := by
  suffices h : ∀ v : ℕ,
      valueFrom v g = (g.foldl (fun v c => v * 10 + (c.toNat - 48)) v : ℕ) from h 0
  induction g with
  | nil => exact fun v => rfl
  | cons c g ih =>
    intro v
    have hc : 48 ≤ c.toNat := UInt8.le_iff_toNat_le.mp (hg c (.head _)).1
    have hstep : (v : ℤ) * 10 + ((c.toNat : ℤ) - 48) = ((v * 10 + (c.toNat - 48) : ℕ) : ℤ) := by
      omega
    unfold valueFrom at ih ⊢
    rw [List.foldl_cons, List.foldl_cons, hstep]
    exact ih (fun d hd => hg d (.tail _ hd)) _

theorem le_valueFrom {g : List UInt8} (hg : ∀ c ∈ g, 48 ≤ c ∧ c ≤ 57) {val : ℤ} (hval : 0 ≤ val) :
    val ≤ valueFrom val g := by
  induction g generalizing val with
  | nil => exact le_rfl
  | cons c g ih =>
    have hc : 48 ≤ c.toNat := UInt8.le_iff_toNat_le.mp (hg c (.head _)).1
    have hrest :=
      ih (fun d hd => hg d (.tail _ hd)) (show 0 ≤ val * 10 + ((c.toNat : ℤ) - 48) by omega)
    unfold valueFrom at hrest ⊢
    rw [List.foldl_cons]
    omega

/-- Where a run of digits ends. -/
def Stops (s : List UInt8) : Prop := ∀ c rest, s = c :: rest → ¬(48 ≤ c ∧ c ≤ 57)

theorem stops_dropWhile (s : List UInt8) :
    Stops (s.dropWhile fun c => decide (48 ≤ c ∧ c ≤ 57)) := by
  intro c rest h
  have hhead := List.head?_dropWhile_not (fun c : UInt8 => decide (48 ≤ c ∧ c ≤ 57)) s
  rw [h] at hhead
  simpa using hhead

/-- A run of digits is read unless its value is beyond an octet. -/
theorem parseLoop_digits {g : List UInt8} (rest : List UInt8) (hg : ∀ c ∈ g, 48 ≤ c ∧ c ≤ 57)
    {st : Scan} (hval : 0 ≤ st.val) :
    (255 < valueFrom st.val g ∧ g ≠ [] → (parseLoop (g ++ rest) st).2 = false) ∧
      (valueFrom st.val g ≤ 255 → ∃ st', parseLoop (g ++ rest) st = parseLoop rest st' ∧
        st'.val = valueFrom st.val g ∧ st'.digits = st.digits + g.length ∧ st'.idx = st.idx ∧
        st'.oct = st.oct) := by
  induction g generalizing st with
  | nil => exact ⟨fun h => absurd rfl h.2, fun _ => ⟨st, rfl, rfl, by simp, rfl, rfl⟩⟩
  | cons c g ih =>
    have hc := hg c (.head _)
    have hrest : ∀ d ∈ g, 48 ≤ d ∧ d ≤ 57 := fun d hd => hg d (.tail _ hd)
    have hnum : 48 ≤ c.toNat := UInt8.le_iff_toNat_le.mp hc.1
    have hnext : 0 ≤ (st.digit c).val := by
      show 0 ≤ st.val * 10 + ((c.toNat : ℤ) - 48)
      omega
    have hvalue : valueFrom st.val (c :: g) = valueFrom (st.digit c).val g := rfl
    have hle := le_valueFrom hrest hnext
    obtain ⟨hlarge, hsmall⟩ := ih hrest (show 0 ≤ (st.digit c).count.val from hnext)
    have hcount : ((st.digit c).count).val = (st.digit c).val := rfl
    rw [hcount] at hlarge hsmall
    rw [List.cons_append, parseLoop, if_pos hc, hvalue]
    constructor
    · rintro ⟨hbig, -⟩
      split_ifs with hover
      · rfl
      · cases g with
        | nil => exact absurd hbig hover
        | cons d g => exact hlarge ⟨hbig, by simp⟩
    · intro hfit
      rw [if_neg (by omega)]
      obtain ⟨st', hrun, hv, hd, hi, ho⟩ := hsmall hfit
      refine ⟨st', hrun, hv, ?_, hi, ho⟩
      rw [hd, List.length_cons]
      show st.digits + 1 + (g.length : ℤ) = _
      push_cast
      ring

/-- The end of a group that has digits, at most the fourth. -/
theorem parseLoop_octet {g : List UInt8} (rest : List UInt8) {v : UInt8} (h : Octet g v) {st : Scan}
    (hval : st.val = 0) (hdigits : st.digits = 0) :
    ∃ st', parseLoop (g ++ rest) st = parseLoop rest st' ∧ st'.val = v.toNat ∧ 0 < st'.digits ∧
      st'.idx = st.idx ∧
      st'.oct = st.oct := by
  have hv : valueFrom st.val g = v.toNat := by rw [hval, valueFrom_zero h.digit, h.value]
  obtain ⟨st', hrun, hval', hd, hi, ho⟩ := (parseLoop_digits rest h.digit hval.ge).2 (by
    have := v.toNat_lt
    omega)
  have hlen : 0 < g.length := List.length_pos_iff.mpr h.ne_nil
  exact ⟨st', hrun, hval'.trans hv, by omega, hi, ho⟩

/-! ### The whole string -/

/-- The octets from `idx` on. -/
def Holds (st : Scan) (idx : ℤ) (vs : List UInt8) : Prop :=
  ∀ k (hk : k < vs.length), st.oct (idx + k) = vs[k]

theorem parseLoop_of_dotted {s vs : List UInt8} (h : Dotted s vs) {st : Scan} (hval : st.val = 0)
    (hdigits : st.digits = 0) (hidx : st.idx + vs.length ≤ 4) :
    ∃ st', parseLoop s st = (st', true) ∧ st'.idx = st.idx + vs.length ∧ Holds st' st.idx vs ∧
      ∀ k < st.idx, st'.oct k = st.oct k := by
  induction h generalizing st with
  | @last g v hg =>
    obtain ⟨st', hrun, hval', hd, hi, ho⟩ := parseLoop_octet [] hg hval hdigits
    rw [List.length_singleton] at hidx ⊢
    rw [List.append_nil] at hrun
    rw [hrun, parseLoop, if_neg (by omega)]
    refine ⟨_, rfl, ?_, fun k hk => ?_, fun k hk => ?_⟩
    · simp [Scan.store, hi]
    · rw [List.length_singleton] at hk
      obtain rfl : k = 0 := by omega
      simp [Scan.store, hi, hval']
    · simp only [Scan.store, hi, ho]
      exact Function.update_of_ne hk.ne _ _
  | @cons g v s vs hg hs ih =>
    obtain ⟨st', hrun, hval', hd, hi, ho⟩ := parseLoop_octet (46 :: s) hg hval hdigits
    rw [List.length_cons] at hidx ⊢
    push_cast at hidx ⊢
    rw [hrun, parseLoop, if_neg (by decide), if_pos rfl, if_neg (by omega)]
    have hidx' : st'.store.idx = st.idx + 1 := by simp [Scan.store, hi]
    obtain ⟨last, hrest, hlast, hholds, hkept⟩ :=
      ih (show st'.store.val = 0 from rfl) rfl (by rw [hidx']; omega)
    have hoct : st'.store.oct = Function.update st.oct st.idx v := by
      simp [Scan.store, hi, ho, hval']
    refine ⟨last, hrest, by rw [hlast, hidx']; ring, fun k hk => ?_, fun k hk => ?_⟩
    · cases k with
      | zero =>
        rw [List.getElem_cons_zero, Nat.cast_zero, add_zero, hkept _ (by omega), hoct,
          Function.update_self]
      | succ k =>
        have hnext := hholds k (by rw [List.length_cons] at hk; omega)
        rw [List.getElem_cons_succ, ← hnext, hidx']
        congr 1
        push_cast
        ring
    · rw [hkept k (by omega), hoct, Function.update_of_ne hk.ne]

theorem dotted_of_parseLoop (n : ℕ) :
    ∀ {s : List UInt8} {st : Scan}, s.length ≤ n → st.val = 0 → st.digits = 0 →
    (parseLoop s st).2 = true →
      ∃ vs, Dotted s vs ∧ (parseLoop s st).1.idx = st.idx + vs.length ∧ st.idx + vs.length ≤ 4 := by
  induction n with
  | zero =>
    intro s st hlen _ hdigits h
    obtain rfl := List.length_eq_zero_iff.mp (Nat.le_zero.mp hlen)
    rw [parseLoop, if_pos (.inl hdigits)] at h
    exact absurd h (by simp)
  | succ n ih =>
    intro s st hlen hval hdigits h
    obtain ⟨g, rest, hs, hg, hstop⟩ :
        ∃ g rest, s = g ++ rest ∧ (∀ c ∈ g, 48 ≤ c ∧ c ≤ 57) ∧ Stops rest := by
      refine ⟨_, _, (List.takeWhile_append_dropWhile (p := fun c => decide (48 ≤ c ∧ c ≤ 57))).symm,
        fun c hc => ?_,
        stops_dropWhile s⟩
      simpa using List.all_eq_true.mp List.all_takeWhile c hc
    subst hs
    obtain ⟨hlarge, hsmall⟩ := parseLoop_digits rest hg hval.ge
    have hvalue : valueFrom st.val g = decimal g := by rw [hval, valueFrom_zero hg]
    by_cases hfit : valueFrom st.val g ≤ 255
    · obtain ⟨st', hrun, hval', hd, hi, ho⟩ := hsmall hfit
      rw [hrun] at h ⊢
      have hoctet : st'.digits ≠ 0 → Octet g (.ofNat (decimal g)) := by
        intro hne
        refine ⟨?_, hg, ?_⟩
        · rintro rfl
          simp only [List.length_nil] at hd
          omega
        · rw [UInt8.toNat_ofNat']
          omega
      cases rest with
      | nil =>
        rw [parseLoop] at h ⊢
        split_ifs at h ⊢ with hstop'
        rw [List.append_nil]
        refine ⟨_, .last (hoctet (by omega)), ?_, ?_⟩
        · simp [Scan.store, hi]
        · rw [List.length_singleton]
          omega
      | cons c rest =>
        have hdigit := hstop c rest rfl
        rw [parseLoop, if_neg hdigit] at h ⊢
        split_ifs at h ⊢ with hdot hstop'
        subst hdot
        have hshort : rest.length ≤ n := by
          rw [List.length_append, List.length_cons] at hlen
          omega
        obtain ⟨vs, hvs, hidx, hle⟩ := ih hshort (show st'.store.val = 0 from rfl) rfl h
        have hidx' : st'.store.idx = st.idx + 1 := by simp [Scan.store, hi]
        rw [hidx'] at hidx hle
        refine ⟨_ :: vs, .cons (hoctet (by omega)) hvs, ?_, ?_⟩
        · rw [hidx, List.length_cons]
          push_cast
          ring
        · rw [List.length_cons]
          push_cast
          omega
    · have hne : g ≠ [] := by
        rintro rfl
        simp [valueFrom, hval] at hfit
      rw [hlarge ⟨not_le.mp hfit, hne⟩] at h
      exact absurd h (by simp)

theorem parseIp_iff (oct : ℤ → UInt8) (s : List UInt8) (ip : ℕ) :
    parseIp oct s = some ip ↔ ∃ a b c d, Dotted s [a, b, c, d] ∧ ip = packIp a b c d := by
  have hfour : ∀ a b c d, Dotted s [a, b, c, d] → parseIp oct s = some (packIp a b c d) := by
    intro a b c d hs
    obtain ⟨st, hrun, hidx, hholds, -⟩ :=
      parseLoop_of_dotted hs (show (Scan.init oct).val = 0 from rfl) rfl (by simp [Scan.init])
    have h0 := hholds 0 (by simp)
    have h1 := hholds 1 (by simp)
    have h2 := hholds 2 (by simp)
    have h3 := hholds 3 (by simp)
    simp [Scan.init] at h0 h1 h2 h3 hidx
    simp [parseIp, hrun, hidx, h0, h1, h2, h3]
  constructor
  · intro h
    have hok : (parseLoop s (.init oct)).2 = true := by
      by_contra hok
      simp [parseIp, hok] at h
    obtain ⟨vs, hvs, hidx, -⟩ := dotted_of_parseLoop s.length le_rfl rfl rfl hok
    have hlen : vs.length = 4 := by
      by_contra hlen
      have hne : (parseLoop s (.init oct)).1.idx ≠ 4 := by
        rw [hidx]
        simp only [Scan.init]
        omega
      simp [parseIp, hok, hne] at h
    obtain ⟨a, b, c, d, rfl⟩ := List.length_eq_four.mp hlen
    refine ⟨a, b, c, d, hvs, ?_⟩
    rw [hfour a b c d hvs] at h
    exact (Option.some.inj h).symm
  · rintro ⟨a, b, c, d, hs, rfl⟩
    exact hfour a b c d hs

/-! ### The numbers on the way -/

/-- Where the loop stands, with `n` characters to come: the indexes written are those of `oct`, the
numbers are ints. -/
structure Scan.Ok (st : Scan) (n : ℕ) : Prop where
  idx : 0 ≤ st.idx ∧ st.idx ≤ 4
  val : 0 ≤ st.val ∧ st.val ≤ 255
  digits : 0 ≤ st.digits ∧ st.digits + n < 2 ^ 31 - 1
  written : ∀ i ∈ st.written, 0 ≤ i ∧ i ≤ 3
  values : ∀ v ∈ st.values, 0 ≤ v ∧ v < 2 ^ 31

theorem Scan.Ok.digit {st : Scan} {n : ℕ} (h : st.Ok (n + 1)) {c : UInt8} (hc : 48 ≤ c ∧ c ≤ 57) :
    ∀ v ∈ (st.digit c).values, 0 ≤ v ∧ v < 2 ^ 31 := by
  intro v hv
  have hval := h.val
  have hlow : 48 ≤ c.toNat := UInt8.le_iff_toNat_le.mp hc.1
  have hhigh : c.toNat ≤ 57 := UInt8.le_iff_toNat_le.mp hc.2
  simp only [Scan.digit, List.mem_append, List.mem_cons, List.not_mem_nil, or_false] at hv
  rcases hv with hv | rfl | rfl | rfl
  · exact h.values v hv
  · omega
  · omega
  · omega

theorem Scan.Ok.count {st : Scan} {n : ℕ} (h : st.Ok (n + 1)) {c : UInt8} (hc : 48 ≤ c ∧ c ≤ 57)
    (hfit : (st.digit c).val ≤ 255) : (st.digit c).count.Ok n := by
  have hdigits := h.digits
  have hval := h.val
  have hlow : 48 ≤ c.toNat := UInt8.le_iff_toNat_le.mp hc.1
  have hdigit : (st.digit c).digits = st.digits := rfl
  refine ⟨h.idx, ⟨?_, hfit⟩, ?_, h.written, fun v hv => ?_⟩
  · show 0 ≤ st.val * 10 + ((c.toNat : ℤ) - 48)
    omega
  · show 0 ≤ st.digits + 1 ∧ st.digits + 1 + n < 2 ^ 31 - 1
    push_cast at hdigits
    omega
  · simp only [Scan.count, List.mem_append, List.mem_singleton] at hv
    rcases hv with hv | rfl
    · exact h.digit hc v hv
    · push_cast at hdigits
      omega

theorem Scan.Ok.store {st : Scan} {n m : ℕ} (h : st.Ok n) (hidx : ¬3 < st.idx) (hm : m ≤ n) :
    st.store.Ok m := by
  have hlow := h.idx.1
  have hdigits := h.digits
  refine ⟨?_, ⟨le_rfl, by simp [Scan.store]⟩, ?_, fun i hi => ?_, fun v hv => ?_⟩
  · simp only [Scan.store]
    omega
  · simp only [Scan.store]
    omega
  · simp only [Scan.store, List.mem_append, List.mem_singleton] at hi
    rcases hi with hi | rfl
    · exact h.written i hi
    · omega
  · simp only [Scan.store, List.mem_append, List.mem_singleton] at hv
    rcases hv with hv | rfl
    · exact h.values v hv
    · omega

theorem parseLoop_ok {s : List UInt8} {st : Scan} (h : st.Ok s.length) :
    (∀ i ∈ (parseLoop s st).1.written, 0 ≤ i ∧ i ≤ 3) ∧ ∀ v ∈ (parseLoop s st).1.values, 0 ≤ v ∧
      v < 2 ^ 31 := by
  induction s generalizing st with
  | nil =>
    rw [parseLoop]
    split_ifs with hstop
    · exact ⟨h.written, h.values⟩
    · have hnext := h.store (m := 0) (by omega) le_rfl
      exact ⟨hnext.written, hnext.values⟩
  | cons c s ih =>
    rw [parseLoop]
    split_ifs with hdigit hover hdot hstop
    · exact ⟨h.written, h.digit hdigit⟩
    · exact ih (h.count hdigit (not_lt.mp hover))
    · exact ⟨h.written, h.values⟩
    · exact ih (h.store (by omega) (Nat.le_succ _))
    · exact ⟨h.written, h.values⟩

/-- Exactly the dotted quads are accepted, with their octets in order; `oct` is written inside, and
nothing overflows. -/
theorem parseIp_spec (oct : ℤ → UInt8) (s : CString) :
    (∀ ip, parseIp oct s = some ip ↔ ∃ a b c d, Dotted s [a, b, c, d] ∧ ip = packIp a b c d) ∧
      (∀ i ∈ (parseLoop s (.init oct)).1.written, 0 ≤ i ∧ i ≤ 3) ∧
      ∀ v ∈ (parseLoop s (.init oct)).1.values, 0 ≤ v ∧ v < 2 ^ 31 := by
  obtain ⟨s, -, hlen⟩ := s
  have hstart : (Scan.init oct).Ok s.length := by
    refine ⟨⟨le_rfl, by simp [Scan.init]⟩, ⟨le_rfl, by simp [Scan.init]⟩, ⟨le_rfl, ?_⟩, ?_, ?_⟩
    · simp only [Scan.init]
      omega
    · simp [Scan.init]
    · simp [Scan.init]
  exact ⟨parseIp_iff oct s, parseLoop_ok hstart⟩

/-- `10.05.0.4` and no `10.5.0`. -/
example : parseIp (fun _ => 0) [49, 48, 46, 48, 53, 46, 48, 46, 52] = some localIp ∧
    parseIp (fun _ => 0) [49, 48, 46, 53, 46, 48] = none := by decide +kernel

end X86Kernel.Net
