import Mathlib.Tactic

/-! Programs over a state that may fail, and the rules for what they give. -/

/-- From `s` the program does not fail, and `Q` holds of its value and of the state in the end. -/
def Gives {σ α : Type} (m : StateT σ Option α) (s : σ) (Q : α → σ → Prop) : Prop :=
  ∃ a s', m s = some (a, s') ∧ Q a s'

namespace Gives

variable {σ α β : Type} {m : StateT σ Option α} {s : σ} {Q : α → σ → Prop}

theorem pure {a : α} (h : Q a s) : Gives (Pure.pure a) s Q := ⟨a, s, rfl, h⟩

theorem bind {k : α → StateT σ Option β} {R : β → σ → Prop} (hm : Gives m s Q)
    (hk : ∀ a s', Q a s' → Gives (k a) s' R) : Gives (m >>= k) s R := by
  obtain ⟨a, s', hrun, hQ⟩ := hm
  obtain ⟨b, t, hrest, hR⟩ := hk a s' hQ
  refine ⟨b, t, ?_, hR⟩
  change (m s >>= fun p => k p.1 p.2) = some (b, t)
  rw [hrun]
  exact hrest

theorem mono {R : α → σ → Prop} (h : Gives m s Q) (hQR : ∀ a s', Q a s' → R a s') :
    Gives m s R := by
  obtain ⟨a, s', hrun, hQ⟩ := h
  exact ⟨a, s', hrun, hQR a s' hQ⟩

/-- A program that first looks at the state. -/
theorem get {k : σ → StateT σ Option α} (h : Gives (k s) s Q) :
    Gives (MonadState.get >>= k) s Q := h

theorem modify {f : σ → σ} {Q : PUnit → σ → Prop} (h : Q ⟨⟩ (f s)) :
    Gives (modifyGet fun s => (⟨⟩, f s)) s Q := ⟨_, _, rfl, h⟩

theorem ite {p : Prop} [Decidable p] {m' : StateT σ Option α} (hpos : p → Gives m s Q)
    (hneg : ¬p → Gives m' s Q) :
    Gives (if p then m else m') s Q := by
  by_cases h : p
  · rw [if_pos h]
    exact hpos h
  · rw [if_neg h]
    exact hneg h

end Gives
