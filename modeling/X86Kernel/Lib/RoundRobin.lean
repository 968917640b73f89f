import Mathlib.Data.List.Range

/-! Round robin: the first that is ready after the current one, itself last, and how long one waits
for its turn. -/
namespace RoundRobin

variable {n : ℕ} (ready : Fin n → Bool) (cur t : Fin n)

/-- Everyone, from the one after `cur` on. -/
def order : List (Fin n) :=
  (List.range n).map fun i => ⟨(cur.val + 1 + i) % n, Nat.mod_lt _ (Nat.zero_lt_of_lt cur.isLt)⟩

def next : Option (Fin n) := (order cur).find? ready

/-- How many come before `t`. -/
def distance : ℕ := (t.val + n - 1 - cur.val) % n

theorem distance_lt : distance cur t < n := Nat.mod_lt _ (Nat.zero_lt_of_lt cur.isLt)

theorem order_distance : (order cur)[distance cur t]? = some t := by
  have hlt := distance_lt cur t
  have hcur := cur.isLt
  have ht := t.isLt
  unfold order
  rw [List.getElem?_map, List.getElem?_range hlt]
  apply congrArg some
  apply Fin.ext
  dsimp only
  unfold distance
  rw [Nat.add_mod_mod, show cur.val + 1 + (t.val + n - 1 - cur.val) = t.val + n by omega,
    Nat.add_mod_right]
  exact Nat.mod_eq_of_lt ht

variable {cur t}

/-- One that comes earlier leaves fewer before `t`. -/
theorem distance_of_earlier {i : ℕ} (hi : i < distance cur t) {u : Fin n}
    (hu : (order cur)[i]? = some u) :
    distance u t < distance cur t := by
  have hlt := distance_lt cur t
  have hcur := cur.isLt
  have ht := t.isLt
  unfold order at hu
  rw [List.getElem?_map, List.getElem?_range (by omega)] at hu
  obtain rfl := Option.some.inj hu
  unfold distance at *
  dsimp only
  rcases Nat.lt_or_ge t.val (cur.val + 1) with hle | hlt'
  · rw [Nat.mod_eq_of_lt (show t.val + n - 1 - cur.val < n by omega)] at *
    rcases Nat.lt_or_ge (cur.val + 1 + i) n with hin | hout
    · rw [Nat.mod_eq_of_lt hin, Nat.mod_eq_of_lt (by omega)]
      omega
    · rw [Nat.mod_eq_sub_mod hout, Nat.mod_eq_of_lt (show cur.val + 1 + i - n < n by omega),
        show t.val + n - 1 - (cur.val + 1 + i - n) = t.val + n - 1 - cur.val - 1 - i + n by omega,
            Nat.add_mod_right,
        Nat.mod_eq_of_lt (by omega)]
      omega
  · rw [show t.val + n - 1 - cur.val = t.val - 1 - cur.val + n by omega, Nat.add_mod_right,
      Nat.mod_eq_of_lt (show t.val - 1 - cur.val < n by omega)] at *
    rw [Nat.mod_eq_of_lt (show cur.val + 1 + i < n by omega),
      show t.val + n - 1 - (cur.val + 1 + i) = t.val - 1 - cur.val - 1 - i + n by omega,
          Nat.add_mod_right,
      Nat.mod_eq_of_lt (by omega)]
    omega

variable {ready}

/-- One who is ready is next, or one turn closer. -/
theorem next_of_ready (cur : Fin n) (ht : ready t = true) :
    ∃ u, next ready cur = some u ∧ ready u = true ∧ (u = t ∨ distance u t < distance cur t) := by
  have hmem := List.mem_of_getElem? (order_distance cur t)
  obtain ⟨u, hu⟩ := Option.isSome_iff_exists.mp (List.find?_isSome.mpr ⟨t, hmem, ht⟩)
  obtain ⟨hready, i, hlt, hi, hbefore⟩ := List.find?_eq_some_iff_getElem.mp hu
  refine ⟨u, hu, hready, ?_⟩
  have hget : (order cur)[i]? = some u := by rw [List.getElem?_eq_getElem hlt, hi]
  rcases Nat.lt_trichotomy i (distance cur t) with hearlier | hsame | hlater
  · exact .inr (distance_of_earlier hearlier hget)
  · rw [hsame, order_distance cur t] at hget
    exact .inl (Option.some.inj hget).symm
  · have hlen : distance cur t < (order cur).length := by omega
    have hself := order_distance cur t
    rw [List.getElem?_eq_getElem hlen] at hself
    have hnot := hbefore (distance cur t) hlater
    rw [Option.some.inj hself, ht] at hnot
    exact absurd hnot (by simp)

/-! ### Runs -/

variable {σ α : Type*} (step : σ → α → σ) (current : σ → Fin n) (isSwitch : α → Bool)

/-- In every state of a run `t` is ready for what comes next, and nothing but a switch changes who
runs. -/
def Waits (ready : σ → α → Fin n → Bool) (t : Fin n) : σ → List α → Prop
  | _, [] => True
  | s, a :: l =>
    ready s a t = true ∧
    (if isSwitch a then next (ready s a) (current s) = some (current (step s a))
      else current (step s a) = current s) ∧ Waits ready t (step s a) l

variable {step current isSwitch}

/-- One who stays ready has its turn, and those before it have one turn each at most. -/
theorem Waits.served {ready : σ → α → Fin n → Bool} {s : σ} {l : List α}
    (h : Waits step current isSwitch ready t s l)
    (hcount : distance (current s) t < l.countP isSwitch) :
    ∃ p a q, l = p ++ a :: q ∧ isSwitch a = true ∧ current ((p ++ [a]).foldl step s) = t ∧
      p.countP isSwitch ≤ distance (current s) t := by
  induction l generalizing s with
  | nil => simp at hcount
  | cons a l ih =>
    obtain ⟨hready, hstep, hrest⟩ := h
    by_cases ha : isSwitch a = true
    · rw [if_pos ha] at hstep
      obtain ⟨u, hnext, -, hu⟩ := next_of_ready (current s) hready
      obtain rfl := Option.some.inj (hnext.symm.trans hstep)
      rcases hu with hserved | hcloser
      · exact ⟨[], a, l, rfl, ha, hserved, Nat.zero_le _⟩
      · rw [List.countP_cons, if_pos ha] at hcount
        obtain ⟨p, b, q, rfl, hb, hserved, hbefore⟩ := ih hrest (by omega)
        refine ⟨a :: p, b, q, rfl, hb, hserved, ?_⟩
        rw [List.countP_cons, if_pos ha]
        omega
    · rw [if_neg ha] at hstep
      rw [List.countP_cons, if_neg ha, ← hstep] at hcount
      obtain ⟨p, b, q, rfl, hb, hserved, hbefore⟩ := ih hrest hcount
      refine ⟨a :: p, b, q, rfl, hb, hserved, ?_⟩
      rw [List.countP_cons, if_neg ha, ← hstep]
      exact hbefore

end RoundRobin
