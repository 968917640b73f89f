import Mathlib.Tactic

/-! Loops as bodies that give the next state or stop, and when they end. -/
namespace Loop

variable {σ β : Type*} {body : σ → Option σ} {s : σ}

/-- The state after `n` turns; `none` once the loop has ended. -/
def turns (body : σ → Option σ) : ℕ → σ → Option σ
  | 0, s => some s
  | n + 1, s =>
    match body s with
    | none => none
    | some s' => turns body n s'

def Ends (body : σ → Option σ) (s : σ) : Prop := ∃ n, turns body n s = none

theorem turns_succ_none (h : body s = none) (n : ℕ) : turns body (n + 1) s = none := by
  rw [turns, h]

theorem turns_succ_some {s' : σ} (h : body s = some s') (n : ℕ) :
    turns body (n + 1) s = turns body n s' := by rw [turns, h]

theorem Ends.of_none (h : body s = none) : Ends body s := ⟨1, turns_succ_none h 0⟩

theorem Ends.of_some {s' : σ} (h : body s = some s') (hs : Ends body s') : Ends body s := by
  obtain ⟨n, hn⟩ := hs
  exact ⟨n + 1, (turns_succ_some h n).trans hn⟩

/-- A number that falls with every turn bounds the turns. -/
theorem turns_of_measure (P : σ → Prop) (μ : σ → ℕ)
    (hstep : ∀ s s', P s → body s = some s' → P s' ∧ μ s' < μ s)
    (n : ℕ) : ∀ s, P s → μ s < n → turns body n s = none := by
  induction n with
  | zero => exact fun s _ h => absurd h (Nat.not_lt_zero _)
  | succ n ih =>
    intro s hs hn
    cases hb : body s with
    | none => exact turns_succ_none hb n
    | some s' =>
      obtain ⟨hs', hlt⟩ := hstep s s' hs hb
      rw [turns_succ_some hb]
      exact ih s' hs' (by omega)

theorem ends_of_measure (P : σ → Prop) (μ : σ → ℕ)
    (hstep : ∀ s s', P s → body s = some s' → P s' ∧ μ s' < μ s)
    (hs : P s) : Ends body s := ⟨μ s + 1, turns_of_measure P μ hstep _ s hs (Nat.lt_succ_self _)⟩

/-- A loop in which some condition always holds and always asks for another turn. -/
theorem not_ends (P : σ → Prop) (hstep : ∀ s, P s → ∃ s', body s = some s' ∧ P s') (hs : P s) :
    ¬Ends body s := by
  rintro ⟨n, hn⟩
  induction n generalizing s with
  | zero => exact absurd hn (Option.some_ne_none s)
  | succ n ih =>
    obtain ⟨s', hb, hs'⟩ := hstep s hs
    rw [turns_succ_some hb] at hn
    exact ih hs' hn

/-- `run` with a bound on the turns takes the turns of `body`. -/
structure Follows (body : σ → Option σ) (run : ℕ → σ → β) : Prop where
  turn : ∀ n s s', body s = some s' → run (n + 1) s = run n s'
  exit : ∀ n m s, body s = none → run (n + 1) s = run (m + 1) s

end Loop
