import X86Kernel.Lib.CString
import X86Kernel.Lib.Numeral
import X86Kernel.Lib.Traced
import X86Kernel.Mem.HeapRun

/-! The number texts of `string.c`: what is printed, and what is read back. -/
namespace X86Kernel.Strings

open Mem (int32 int32_of_bounds int32_eq)
open Slice (slice)
open Traced (write Bytes Sat)

/-- A character constant. -/
def ch (c : Char) : UInt8 := c.val.toUInt8

/-- The first loop of the printers: the number of digits. It ends in any base greater than one. -/
def countDigits (base tmp : ℤ) : ℕ :=
  if h : 0 < tmp ∧ 1 < base then countDigits base (tmp.tdiv base) + 1 else 0
termination_by tmp.toNat
decreasing_by
  have hlt : tmp.tdiv base < tmp := by
    rw [Int.tdiv_eq_ediv_of_nonneg (by omega)]
    exact Int.ediv_lt_self_of_pos_of_ne_one (by omega) (by omega)
  omega

/-- The second loop: `length` digits, from the last one on. -/
def fillDigits (digit : ℤ → UInt8) (base : ℤ) : ℕ → ℤ → Traced Unit
  | 0, _ => pure ()
  | length + 1, num => do
    write length (digit (num.tmod base))
    fillDigits digit base length (num.tdiv base)

/-- `'0' + r` -/
def decDigit (r : ℤ) : UInt8 := .ofInt ((ch '0').toNat + r)

def hexDigit (r : ℤ) : UInt8 :=
  if r = 10 then ch 'A'
  else if r = 11 then ch 'B'
  else if r = 12 then ch 'C'
  else if r = 13 then ch 'D'
  else if r = 14 then ch 'E'
  else if r = 15 then ch 'F'
  else .ofInt ((ch '0').toNat + r)

/-- The printer of unsigned numbers, in the base that `digit` is for. -/
def printUint (digit : ℤ → UInt8) (base : ℤ) (num : UInt32) : Traced Unit := do
  if num = 0 then
    write 0 (ch '0')
    write 1 0
  else
    let length := countDigits base num.toNat
    write length 0
    fillDigits digit base length num.toNat

def uinttohexstr (num : UInt32) : Traced Unit := printUint hexDigit 16 num

def uinttostr (num : UInt32) : Traced Unit := printUint decDigit 10 num

/-- `-num`. The least number has no negation that is an `int`, and C leaves undefined what
follows. -/
def negate (num : Int32) : Option ℤ := if num = Int32.minValue then none else some (-num.toInt)

/-- The digits of `inttostr`, with room for the sign, and the sign. -/
def printInt (negative : Bool) (num : ℤ) : Traced Unit := do
  let length := countDigits 10 num + if negative then 1 else 0
  write length 0
  fillDigits decDigit 10 length num
  if negative then write 0 (ch '-')

/-- None where what is printed is undefined. -/
def inttostr (num : Int32) : Option (Traced Unit) :=
  if num = 0 then some do
    write 0 (ch '0')
    write 1 0
  else
    let negative := num < 0
    (if negative then negate num else some num.toInt).map (printInt negative)

/-- The loop of `strtoint` over the digits, from a character on. The number wraps around. -/
def strtointLoop : List UInt8 → ℤ → ℤ
  | [], result => result
  | c :: str, result =>
    if ch '0' ≤ c ∧ c ≤ ch '9' then
      strtointLoop str (int32 (int32 (result * 10) + (c.toNat - (ch '0').toNat)))
    else result

def strtoint (str : List UInt8) : ℤ :=
  match str.dropWhile (· == ch ' ') with
  | [] => int32 (1 * strtointLoop [] 0)
  | c :: str =>
    if c = ch '-' then int32 (-1 * strtointLoop str 0)
    else if c = ch '+' then int32 (1 * strtointLoop str 0)
    else int32 (1 * strtointLoop (c :: str) 0)

def hextouintStep (u : ℕ) (c : UInt8) : ℕ :=
  if ch '0' ≤ c ∧ c ≤ ch '9' then (u * 2 ^ 4 + (c.toNat - (ch '0').toNat)) % 2 ^ 32
  else if ch 'A' ≤ c ∧ c ≤ ch 'F' then (u * 2 ^ 4 + (c.toNat - (ch 'A').toNat + 10)) % 2 ^ 32
  else if ch 'a' ≤ c ∧ c ≤ ch 'f' then (u * 2 ^ 4 + (c.toNat - (ch 'a').toNat + 10)) % 2 ^ 32
  else u

def hextouint (str : List UInt8) : ℕ := str.foldl hextouintStep 0

/-! ### Printing -/

/-- A string at the start of a buffer. -/
abbrev Holds (mem : Bytes) (text : List UInt8) : Prop := CString.Holds mem 0 text

theorem holds_of_slice {mem : Bytes} {text : List UInt8}
    (hslice : slice mem 0 text.length = text) (hnul : mem text.length = 0) (hstring : 0 ∉ text) :
    Holds mem text :=
  .of_slice hslice ((congrArg mem (Nat.zero_add _)).trans hnul) hstring

theorem countDigits_eq {base n : ℕ} (hbase : 1 < base) :
    countDigits base n = (Nat.digits base n).length := by
  induction n using Nat.strong_induction_on with
  | _ n ih =>
    rw [countDigits]
    rcases Nat.eq_zero_or_pos n with rfl | hn
    · simp
    · rw [dif_pos (by omega), Nat.digits_def' hbase hn, List.length_cons,
        ← ih _ (Nat.div_lt_self hn hbase)]
      rfl

/-- What the second loop writes, and that it writes nowhere else. -/
theorem fillDigits_sat {digit : ℤ → UInt8} {base n size : ℕ} (length : ℕ) (hlength : length ≤ size)
    (mem : Bytes) :
    Sat size (fillDigits digit base length n) mem fun _ mem' =>
      slice mem' 0 length = (Numeral.padded base length n).map (fun d : ℕ => digit d) ∧
        ∀ k, length ≤ k → mem' k = mem k := by
  induction length generalizing n mem with
  | zero => exact Sat.pure ⟨rfl, fun _ _ => rfl⟩
  | succ length ih =>
    apply Sat.bind (Sat.write (by omega))
    rintro _ _ rfl
    apply (ih (n := n / base) (by omega) _).mono
    rintro _ mem' ⟨hslice, hframe⟩
    have hmod : (n : ℤ).tmod base = ((n % base : ℕ) : ℤ) := rfl
    constructor
    · rw [Slice.slice_add, hslice, Numeral.padded, List.map_append, List.map_singleton, ← hmod]
      congr 1
      change [mem' (0 + length + 0)] = _
      rw [hframe _ (by omega), Nat.add_zero, Nat.zero_add, Function.update_self]
    · intro k hk
      rw [hframe k (by omega), Function.update_of_ne (by omega)]

/-- The numeral of `n` in characters. -/
def chars (digit : ℤ → UInt8) (base n : ℕ) : List UInt8 :=
  (Numeral.digits base n).map fun d : ℕ => digit d

def decimal (n : ℕ) : List UInt8 := chars decDigit 10 n

def hexadecimal (n : ℕ) : List UInt8 := chars hexDigit 16 n

/-- The signed numeral. -/
def intText (n : ℤ) : List UInt8 := if n < 0 then ch '-' :: decimal n.natAbs else decimal n.natAbs

/-- A character for every digit, and none of them the NUL. -/
structure Digits (digit : ℤ → UInt8) (base : ℕ) : Prop where
  one_lt : 1 < base
  zero : digit 0 = ch '0'
  ne_nul : ∀ d : ℕ, d < base → digit d ≠ 0

theorem decDigits : Digits decDigit 10 := ⟨by decide, by decide, by decide⟩

theorem hexDigits : Digits hexDigit 16 := ⟨by decide, by decide, by decide⟩

variable {digit : ℤ → UInt8} {base size : ℕ}

theorem Digits.nul_not_mem (h : Digits digit base) (n : ℕ) : 0 ∉ chars digit base n := by
  intro hmem
  obtain ⟨d, hd, hzero⟩ := List.mem_map.mp hmem
  exact h.ne_nul d (Numeral.lt_of_mem_digits h.one_lt hd) hzero

theorem chars_of_ne_zero {n : ℕ} (hn : n ≠ 0) :
    chars digit base n = ((Nat.digits base n).reverse).map fun d : ℕ => digit d := by
  unfold chars Numeral.digits
  rw [if_neg hn]

theorem Digits.count_eq (h : Digits digit base) {n : ℕ} (hn : n ≠ 0) :
    countDigits base n = (chars digit base n).length := by
  rw [chars_of_ne_zero hn, List.length_map, List.length_reverse, countDigits_eq h.one_lt]

theorem Digits.padded_eq (h : Digits digit base) {n : ℕ} (hn : n ≠ 0) :
    (Numeral.padded base (chars digit base n).length n).map (fun d : ℕ => digit d) =
    chars digit base n := by
  rw [← h.count_eq hn, countDigits_eq h.one_lt, Numeral.padded_length h.one_lt, chars_of_ne_zero hn]

/-- One place more than the number needs. -/
theorem Digits.padded_succ_eq (h : Digits digit base) {n : ℕ} (hn : n ≠ 0) :
    (Numeral.padded base ((chars digit base n).length + 1) n).map (fun d : ℕ => digit d) =
      digit 0 :: chars digit base n := by
  rw [← h.count_eq hn, countDigits_eq h.one_lt, Numeral.padded_length_succ h.one_lt,
    chars_of_ne_zero hn]
  rfl

/-- A number that is not zero. -/
theorem Digits.fill_sat (h : Digits digit base) {n : ℕ} (hn : n ≠ 0)
    (hsize : (chars digit base n).length < size) (mem : Bytes) : Sat size (do
      write (countDigits base n) 0
      fillDigits digit base (countDigits base n) n) mem fun _ mem' =>
        Holds mem' (chars digit base n) := by
  rw [h.count_eq hn]
  apply Sat.bind (Sat.write hsize)
  rintro _ _ rfl
  apply (fillDigits_sat _ hsize.le _).mono
  rintro _ mem' ⟨hslice, hframe⟩
  apply holds_of_slice
  · rw [hslice, h.padded_eq hn]
  · rw [hframe _ le_rfl, Function.update_self]
  · exact h.nul_not_mem n

/-- The same behind a place for the sign. -/
theorem Digits.fill_succ_sat (h : Digits digit base) {n : ℕ} (hn : n ≠ 0)
    (hsize : (chars digit base n).length + 1 < size) {c : UInt8} (hc : c ≠ 0) (mem : Bytes) :
    Sat size (do
      write (countDigits base n + 1) 0
      fillDigits digit base (countDigits base n + 1) n
      write 0 c) mem fun _ mem' => Holds mem' (c :: chars digit base n) := by
  rw [h.count_eq hn]
  apply Sat.bind (Sat.write hsize)
  rintro _ _ rfl
  apply Sat.bind (fillDigits_sat _ hsize.le _)
  rintro _ mem' ⟨hslice, hframe⟩
  apply (Sat.write (by omega)).mono
  rintro _ _ rfl
  rw [h.padded_succ_eq hn, Nat.add_comm, Slice.slice_add] at hslice
  have htail : slice mem' 1 (chars digit base n).length = chars digit base n := by
    have hlength : (slice mem' 0 1).length = [digit 0].length := Slice.length_slice
    exact (List.append_inj hslice hlength).2
  apply holds_of_slice
  · rw [List.length_cons, Nat.add_comm, Slice.slice_add]
    have hrest : slice (Function.update mem' 0 c) (0 + 1) (chars digit base n).length =
        slice mem' 1 (chars digit base n).length := by
      apply Slice.slice_congr
      intro k _
      rw [Function.update_of_ne (by omega)]
    rw [hrest, htail]
    rfl
  · rw [List.length_cons, Function.update_of_ne (by omega), hframe _ le_rfl, Function.update_self]
  · intro hmem
    rcases List.mem_cons.mp hmem with hzero | hmem
    · exact hc hzero.symm
    · exact h.nul_not_mem n hmem

/-- The text of zero. -/
theorem zero_sat (hsize : 1 < size) (mem : Bytes) : Sat size (do
    write 0 (ch '0')
    write 1 0) mem fun _ mem' => Holds mem' [ch '0'] := by
  apply Sat.bind (Sat.write (by omega))
  rintro _ _ rfl
  apply (Sat.write hsize).mono
  rintro _ _ rfl
  exact holds_of_slice rfl rfl (by decide)

theorem Digits.printUint_sat (h : Digits digit base) {num : UInt32}
    (hsize : (chars digit base num.toNat).length < size) (mem : Bytes) :
    Sat size (printUint digit base num) mem fun _ mem' =>
      Holds mem' (chars digit base num.toNat) := by
  apply Sat.ite
  · rintro rfl
    have hzero : chars digit base (0 : UInt32).toNat = [ch '0'] := by
      simp [chars, Numeral.digits, h.zero]
    rw [hzero] at hsize ⊢
    exact zero_sat hsize mem
  · intro hne
    apply h.fill_sat _ hsize
    intro hzero
    exact hne (UInt32.toNat_inj.mp hzero)

theorem length_chars_le {k n : ℕ} (hbase : 1 < base) (hk : 0 < k) (hn : n < base ^ k) :
    (chars digit base n).length ≤ k := by
  rw [chars, List.length_map]
  exact Numeral.length_digits_le hbase hk hn

theorem uinttohexstr_sat (num : UInt32) (hsize : 12 ≤ size) (mem : Bytes) :
    Sat size (uinttohexstr num) mem fun _ mem' => Holds mem' (hexadecimal num.toNat) := by
  have hlength : (chars hexDigit 16 num.toNat).length ≤ 8 :=
    length_chars_le (by decide) (by decide) num.toNat_lt
  exact hexDigits.printUint_sat (by omega) mem

theorem uinttostr_sat (num : UInt32) (hsize : 12 ≤ size) (mem : Bytes) :
    Sat size (uinttostr num) mem fun _ mem' => Holds mem' (decimal num.toNat) := by
  have hlength : (chars decDigit 10 num.toNat).length ≤ 10 :=
    length_chars_le (by decide) (by decide) (num.toNat_lt.trans (by norm_num))
  exact decDigits.printUint_sat (by omega) mem

theorem inttostr_min : inttostr Int32.minValue = none := by decide

/-- Every other number is printed. -/
theorem inttostr_sat {num : Int32} (hmin : num ≠ Int32.minValue) :
    ∃ print, inttostr num = some print ∧
    ∀ (size : ℕ) (mem : Bytes), 12 ≤ size → Sat size print mem fun _ mem' =>
      Holds mem' (intText num.toInt) := by
  have hlo := num.le_toInt
  have hhi := num.toInt_lt
  have hlength : (chars decDigit 10 num.toInt.natAbs).length ≤ 10 :=
    length_chars_le (by decide) (by decide) (by omega)
  by_cases hzero : num = 0
  · subst hzero
    exact ⟨_, rfl, fun size mem hsize => zero_sat (by omega) mem⟩
  · have hpos : num.toInt.natAbs ≠ 0 :=
      fun h => hzero (Int32.toInt_inj.mp (Int.natAbs_eq_zero.mp h))
    unfold inttostr
    rw [if_neg hzero]
    by_cases hneg : num < 0
    · have hlt : num.toInt < 0 := Int32.lt_iff_toInt_lt.mp hneg
      have habs : -num.toInt = (num.toInt.natAbs : ℤ) := by omega
      dsimp only
      rw [if_pos hneg, negate, if_neg hmin, habs, intText, if_pos hlt, decide_eq_true hneg]
      refine ⟨_, rfl, fun size mem hsize => ?_⟩
      exact decDigits.fill_succ_sat hpos (by omega) (by decide) mem
    · have habs : num.toInt = (num.toInt.natAbs : ℤ) := by
        have hge : ¬num.toInt < 0 := fun hlt => hneg (Int32.lt_iff_toInt_lt.mpr hlt)
        omega
      dsimp only
      rw [if_neg hneg, intText, if_neg (by omega), decide_eq_false hneg]
      refine ⟨_, rfl, fun size mem hsize => ?_⟩
      unfold printInt
      simp only [Bool.false_eq_true, if_false, Nat.add_zero]
      rw [habs]
      apply Sat.assoc
      apply Sat.bind (decDigits.fill_sat hpos (by omega) mem)
      exact fun _ _ hholds => Sat.pure hholds

/-! ### Reading back -/

theorem decDigit_digit {d : ℕ} (hd : d < 10) :
    (ch '0' ≤ decDigit d ∧ decDigit d ≤ ch '9') ∧ (decDigit d).toNat = (ch '0').toNat + d := by
  have hall : ∀ d : ℕ, d < 10 →
      (ch '0' ≤ decDigit d ∧ decDigit d ≤ ch '9') ∧ (decDigit d).toNat = (ch '0').toNat + d := by
        decide
  exact hall d hd

theorem hexDigit_digit {d : ℕ} (hd : d < 10) :
    (ch '0' ≤ hexDigit d ∧ hexDigit d ≤ ch '9') ∧ (hexDigit d).toNat = (ch '0').toNat + d := by
  have hall : ∀ d : ℕ, d < 10 →
      (ch '0' ≤ hexDigit d ∧ hexDigit d ≤ ch '9') ∧ (hexDigit d).toNat = (ch '0').toNat + d := by
        decide
  exact hall d hd

theorem hexDigit_letter {d : ℕ} (hd : 10 ≤ d ∧ d < 16) :
    ¬(ch '0' ≤ hexDigit d ∧ hexDigit d ≤ ch '9') ∧
    (ch 'A' ≤ hexDigit d ∧ hexDigit d ≤ ch 'F') ∧ (hexDigit d).toNat + 10 = (ch 'A').toNat + d := by
  have hall : ∀ d : ℕ, d < 16 → 10 ≤ d → ¬(ch '0' ≤ hexDigit d ∧ hexDigit d ≤ ch '9') ∧
      (ch 'A' ≤ hexDigit d ∧ hexDigit d ≤ ch 'F') ∧
        (hexDigit d).toNat + 10 = (ch 'A').toNat + d := by decide
  exact hall d hd.2 hd.1

theorem hextouintStep_eq (u : ℕ) {d : ℕ} (hd : d < 16) :
    hextouintStep (u % 2 ^ 32) (hexDigit d) = (u * 16 + d) % 2 ^ 32 := by
  unfold hextouintStep
  rcases Nat.lt_or_ge d 10 with hlt | hge
  · obtain ⟨hdigit, hvalue⟩ := hexDigit_digit hlt
    rw [if_pos hdigit, hvalue]
    omega
  · obtain ⟨hno, hletter, hvalue⟩ := hexDigit_letter ⟨hge, hd⟩
    have hA : (ch 'A').toNat = 65 := rfl
    rw [if_neg hno, if_pos hletter]
    omega

theorem hextouint_hexadecimal {n : ℕ} (hn : n < 2 ^ 32) : hextouint (hexadecimal n) = n := by
  unfold hextouint hexadecimal chars
  rw [List.foldl_map]
  have hfold := Numeral.foldl_value (b := 16) (f := fun v => v % 2 ^ 32)
    (g := fun u d => hextouintStep u (hexDigit d)) 0
    fun u d hd => hextouintStep_eq u (Numeral.lt_of_mem_digits (b := 16) (n := n) (by norm_num) hd)
  have hvalue := Numeral.value_digits 16 n
  unfold Numeral.value at hvalue
  rw [hvalue, Nat.mod_eq_of_lt hn] at hfold
  exact hfold

theorem int32_mul_add (v : ℤ) (d : ℤ) : int32 (int32 (int32 v * 10) + d) = int32 (v * 10 + d) := by
  unfold int32
  rw [Int.bmod_add_bmod]
  rw [← Int.bmod_add_bmod, Int.bmod_mul_bmod, Int.bmod_add_bmod]

/-- The loop over digits only. -/
theorem strtointLoop_map {l : List ℕ} (hl : ∀ d ∈ l, d < 10) (result : ℤ) :
    strtointLoop (l.map fun d : ℕ => decDigit d) result =
      l.foldl (fun result (d : ℕ) => int32 (int32 (result * 10) + d)) result := by
  induction l generalizing result with
  | nil => rfl
  | cons d l ih =>
    obtain ⟨hdigit, hvalue⟩ := decDigit_digit (hl d (.head _))
    rw [List.map_cons, strtointLoop, if_pos hdigit, ih (fun e he => hl e (.tail _ he)),
      List.foldl_cons, hvalue]
    congr 2
    push_cast
    ring

theorem strtointLoop_decimal (n : ℕ) : strtointLoop (decimal n) 0 = int32 n := by
  have hlt : ∀ d ∈ Numeral.digits 10 n, d < 10 :=
    fun d hd => Numeral.lt_of_mem_digits (by norm_num) hd
  have hfold := Numeral.foldl_value (b := 10) (f := fun v : ℕ => int32 v)
    (g := fun result (d : ℕ) => int32 (int32 (result * 10) + d)) (l := Numeral.digits 10 n) 0
    fun v d _ => by
      rw [int32_mul_add]
      push_cast
      rfl
  have hvalue := Numeral.value_digits 10 n
  unfold Numeral.value at hvalue
  rw [hvalue] at hfold
  exact (strtointLoop_map hlt 0).trans hfold

/-- The first character of a decimal numeral is a digit. -/
theorem exists_decimal_eq_cons (n : ℕ) :
    ∃ c str, decimal n = c :: str ∧ ch '0' ≤ c ∧ c ≤ ch '9' := by
  obtain ⟨d, l, hl⟩ := List.exists_cons_of_ne_nil (Numeral.digits_ne_nil 10 n)
  have hd : d < 10 := Numeral.lt_of_mem_digits (by norm_num)
    (show d ∈ Numeral.digits 10 n by rw [hl]; exact .head _)
  refine ⟨decDigit d, l.map fun d : ℕ => decDigit d, ?_, (decDigit_digit hd).1⟩
  unfold decimal chars
  rw [hl, List.map_cons]

theorem strtoint_decimal (n : ℕ) : strtoint (decimal n) = int32 n := by
  obtain ⟨c, str, hcons, hdigit⟩ := exists_decimal_eq_cons n
  have hloop := strtointLoop_decimal n
  have hspace : (c == ch ' ') = false := by
    apply beq_eq_false_iff_ne.mpr
    rintro rfl
    exact absurd hdigit (by decide)
  have hminus : c ≠ ch '-' := by
    rintro rfl
    exact absurd hdigit (by decide)
  have hplus : c ≠ ch '+' := by
    rintro rfl
    exact absurd hdigit (by decide)
  unfold strtoint
  rw [hcons] at hloop ⊢
  rw [List.dropWhile_cons_of_neg (by simp [hspace])]
  dsimp only
  rw [if_neg hminus, if_neg hplus, hloop, one_mul]
  exact Int.bmod_bmod

theorem strtoint_minus_decimal (n : ℕ) : strtoint (ch '-' :: decimal n) = int32 (-n) := by
  unfold strtoint
  rw [List.dropWhile_cons_of_neg (by decide)]
  dsimp only
  rw [if_pos rfl, strtointLoop_decimal]
  unfold int32
  rw [Int.mul_bmod_bmod, neg_one_mul]

theorem strtoint_intText (n : ℤ) : strtoint (intText n) = int32 n := by
  unfold intText
  split_ifs with hneg
  · rw [strtoint_minus_decimal]
    congr 1
    omega
  · rw [strtoint_decimal]
    congr 1
    omega

/-! ### Round trips -/

/-- A numeral that starts with a zero is that of zero. -/
def Canonical (text : List UInt8) : Prop :=
  text ≠ [] ∧ (text.head? = some (ch '0') → text = [ch '0'])

theorem Digits.canonical (h : Digits digit base)
    (hdigit : ∀ d : ℕ, d < base → digit d = ch '0' → d = 0) (n : ℕ) :
    Canonical (chars digit base n) := by
  constructor
  · exact fun hnil => Numeral.digits_ne_nil base n (List.map_eq_nil_iff.mp hnil)
  · intro hhead
    unfold chars at hhead ⊢
    rw [List.head?_map] at hhead
    obtain ⟨d, hd, hzero⟩ := Option.map_eq_some_iff.mp hhead
    obtain rfl := hdigit d (Numeral.lt_of_mem_digits h.one_lt (List.mem_of_mem_head? hd)) hzero
    by_cases hn : n = 0
    · simp [Numeral.digits, hn, h.zero]
    · exact absurd hd (Numeral.head_digits_ne_zero hn)

/-- C defines what `inttostr` prints, it is the numeral of `n`, and `strtoint` reads `n` from it. -/
def IntRoundTrip (n : Int32) : Prop :=
  ∃ print, inttostr n = some print ∧
    ∀ mem, ∃ text, Holds (print mem).mem text ∧ text = intText n.toInt ∧ strtoint text = n.toInt

def UintRoundTrip (u : UInt32) : Prop :=
  ∀ mem, ∃ text, Holds (uinttostr u mem).mem text ∧ text = decimal u.toNat ∧
    strtoint text % 2 ^ 32 = u.toNat

def HexRoundTrip (u : UInt32) : Prop :=
  ∀ mem, ∃ text, Holds (uinttohexstr u mem).mem text ∧ text = hexadecimal u.toNat ∧
    hextouint text = u.toNat

theorem uintRoundTrip (u : UInt32) : UintRoundTrip u := by
  intro mem
  refine ⟨decimal u.toNat, (uinttostr_sat u le_rfl mem).post, rfl, ?_⟩
  have hlt := u.toNat_lt
  rw [strtoint_decimal, int32_eq]
  omega

theorem hexRoundTrip (u : UInt32) : HexRoundTrip u := by
  intro mem
  exact ⟨hexadecimal u.toNat, (uinttohexstr_sat u le_rfl mem).post, rfl,
    hextouint_hexadecimal u.toNat_lt⟩

theorem intRoundTrip {n : Int32} (hn : n ≠ Int32.minValue) : IntRoundTrip n := by
  obtain ⟨print, hprint, hsat⟩ := inttostr_sat hn
  refine ⟨print, hprint, fun mem => ⟨_, (hsat 12 mem le_rfl).post, rfl, ?_⟩⟩
  rw [strtoint_intText]
  exact int32_of_bounds n.le_toInt n.toInt_lt

/-- No text is defined for the least number. -/
theorem not_intRoundTrip_min : ¬IntRoundTrip Int32.minValue := by
  rintro ⟨print, hprint, -⟩
  rw [inttostr_min] at hprint
  cases hprint

theorem not_forall_intRoundTrip : ¬∀ n : Int32, IntRoundTrip n :=
  fun h => not_intRoundTrip_min (h _)

/-- Number texts round-trip, but for the least number, and have no leading zeros. -/
theorem number_texts (n : Int32) (u : UInt32) : (IntRoundTrip n ↔ n ≠ Int32.minValue) ∧
    (UintRoundTrip u ∧ HexRoundTrip u) ∧
      ∀ k : ℕ, Canonical (decimal k) ∧ Canonical (hexadecimal k) := by
  constructor
  · constructor
    · rintro h rfl
      exact not_intRoundTrip_min h
    · exact intRoundTrip
  · constructor
    · exact ⟨uintRoundTrip u, hexRoundTrip u⟩
    · intro k
      constructor
      · exact decDigits.canonical (by decide) k
      · exact hexDigits.canonical (by decide) k

end X86Kernel.Strings
