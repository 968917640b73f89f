import Mathlib.Data.List.Induction

/-! Runs of a state machine that answers every command, and the induction rules that carry
invariants along them. -/
namespace Machine

variable {σ α β : Type*}

/-- The state after the commands `l`, with each command paired with its answer. -/
def run (exec : σ → α → σ × β) : σ → List α → σ × List (α × β)
  | s, [] => (s, [])
  | s, a :: l => ((run exec (exec s a).1 l).1, (a, (exec s a).2) :: (run exec (exec s a).1 l).2)

variable (exec : σ → α → σ × β)

@[simp] theorem run_nil (s : σ) : run exec s [] = (s, []) := rfl

theorem run_append (s : σ) (l m : List α) :
    run exec s (l ++ m) = ((run exec (run exec s l).1 m).1,
      (run exec s l).2 ++ (run exec (run exec s l).1 m).2) := by
  induction l generalizing s with
  | nil => simp
  | cons a l ih => simp [run, ih]

theorem run_snoc (s : σ) (l : List α) (a : α) :
    run exec s (l ++ [a]) = ((exec (run exec s l).1 a).1,
      (run exec s l).2 ++ [(a, (exec (run exec s l).1 a).2)]) := by
  simp [run_append, run]

variable {exec}

/-- An invariant that also speaks of the commands and answers so far. -/
theorem run_history {P : List (α × β) → σ → Prop} {s : σ} (h0 : P [] s)
    (hstep : ∀ h t a, P h t → P (h ++ [(a, (exec t a).2)]) (exec t a).1) (l : List α) :
    P (run exec s l).2 (run exec s l).1 := by
  induction l using List.reverseRecOn with
  | nil => exact h0
  | append_singleton l a ih =>
    rw [run_snoc]
    exact hstep _ _ a ih

/-- A property of states kept by every command is kept by every run. -/
theorem run_invariant {P : σ → Prop} {s : σ} (h0 : P s)
    (hstep : ∀ t a, P t → P (exec t a).1) (l : List α) : P (run exec s l).1 :=
  run_history (P := fun _ t => P t) h0 (fun _ t a => hstep t a) l

/-- The rule for runs whose every command, in the state it meets, satisfies `Q`. -/
def Along (exec : σ → α → σ × β) (Q : σ → α → Prop) : σ → List α → Prop
  | _, [] => True
  | s, a :: l => Q s a ∧ Along exec Q (exec s a).1 l

instance decidableAlong {Q : σ → α → Prop} [∀ s a, Decidable (Q s a)] :
    ∀ (s : σ) (l : List α), Decidable (Along exec Q s l)
  | _, [] => isTrue trivial
  | s, a :: l => @instDecidableAnd _ _ _ (decidableAlong (exec s a).1 l)

/-- Commands that satisfy the condition in every state. -/
theorem along_of_always {Q : σ → α → Prop} {s : σ} {l : List α} (h : ∀ a ∈ l, ∀ t, Q t a) :
    Along exec Q s l := by
  induction l generalizing s with
  | nil => trivial
  | cons a l ih => exact ⟨h a (.head _) s, ih fun b hb => h b (.tail _ hb)⟩

/-- A condition on the commands alone. -/
theorem along_of_forall {Q : α → Prop} {s : σ} {l : List α} (h : ∀ a ∈ l, Q a) :
    Along exec (fun _ a => Q a) s l :=
  along_of_always fun a ha _ => h a ha

theorem along_append {Q : σ → α → Prop} {s : σ} {l m : List α} (hl : Along exec Q s l)
    (hm : Along exec Q (run exec s l).1 m) : Along exec Q s (l ++ m) := by
  induction l generalizing s with
  | nil => exact hm
  | cons a l ih => exact ⟨hl.1, ih hl.2 hm⟩

theorem run_invariant_along {P : σ → Prop} {Q : σ → α → Prop} {s : σ} (h0 : P s)
    (hstep : ∀ t a, P t → Q t a → P (exec t a).1) {l : List α} (hl : Along exec Q s l) :
    P (run exec s l).1 := by
  induction l generalizing s with
  | nil => exact h0
  | cons a l ih => exact ih (hstep s a h0 hl.1) hl.2

/-- The same for an invariant that also speaks of the commands and answers so far. -/
theorem run_history_along {P : List (α × β) → σ → Prop} {Q : σ → α → Prop} {s : σ} (h0 : P [] s)
    (hstep : ∀ h t a, P h t → Q t a → P (h ++ [(a, (exec t a).2)]) (exec t a).1) {l : List α}
    (hl : Along exec Q s l) : P (run exec s l).2 (run exec s l).1 := by
  suffices hrun : ∀ (l : List α) (h : List (α × β)) (t : σ), P h t → Along exec Q t l →
      P (h ++ (run exec t l).2) (run exec t l).1 from hrun l [] s h0 hl
  intro l
  induction l with
  | nil =>
    intro h t hP _
    rwa [run_nil, List.append_nil]
  | cons a l ih =>
    intro h t hP hQ
    have := ih _ _ (hstep h t a hP hQ.1) hQ.2
    rwa [List.append_assoc] at this

/-- Two machines that answer alike in related states give the same answers over a whole run. -/
theorem run_simulates {τ : Type*} {exec' : τ → α → τ × β} {R : σ → τ → Prop} {Q : σ → α → Prop}
    (hstep : ∀ s t a, R s t → Q s a → R (exec s a).1 (exec' t a).1 ∧ (exec s a).2 = (exec' t a).2)
    {s : σ} {t : τ} (h0 : R s t) {l : List α} (hl : Along exec Q s l) :
    R (run exec s l).1 (run exec' t l).1 ∧ (run exec s l).2 = (run exec' t l).2 := by
  induction l generalizing s t with
  | nil => exact ⟨h0, rfl⟩
  | cons a l ih =>
    obtain ⟨hR, hanswer⟩ := hstep s t a h0 hl.1
    obtain ⟨hfinal, hanswers⟩ := ih hR hl.2
    refine ⟨hfinal, ?_⟩
    rw [run, run, hanswer, hanswers]

theorem run_commands (s : σ) (l : List α) : (run exec s l).2.map Prod.fst = l := by
  induction l generalizing s with
  | nil => rfl
  | cons a l ih => simp [run, ih]

/-- What an observer has recorded after one more step. -/
theorem filterMap_snoc {γ : Type*} (f : α → Option γ) (l : List α) (a : α) :
    (l ++ [a]).filterMap f = l.filterMap f ++ (f a).toList := by
  rw [List.filterMap_append, List.filterMap_cons, List.filterMap_nil]
  cases f a <;> rfl

end Machine
