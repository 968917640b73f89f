import Mathlib.Data.List.Nodup
import Mathlib.Logic.Function.Basic

/-! Locks that are handed over in order of arrival: who owns each lock, and who waits for it. -/

structure FifoLock (τ μ : Type*) where
  owner : μ → Option τ
  queue : μ → List τ

namespace FifoLock

variable {τ μ : Type*}

/-- What happens to the queue of a lock. -/
inductive Event (τ μ : Type*) where
  | arrive (m : μ) (t : τ)
  | pass (m : μ) (t : τ)
  | cancel (m : μ) (t : τ)

/-- Nobody waits twice. -/
structure Queues (a : FifoLock τ μ) : Prop where
  once : ∀ m, (a.queue m).Nodup
  single : ∀ m m' t, t ∈ a.queue m → t ∈ a.queue m' → m = m'

/-- A lock with waiters is owned, and no owner waits for what it has. -/
structure Ok (a : FifoLock τ μ) : Prop extends Queues a where
  owned : ∀ m, a.queue m ≠ [] → a.owner m ≠ none
  apart : ∀ m t, t ∈ a.queue m → a.owner m ≠ some t

variable [DecidableEq μ]

/-- An unowned lock is taken. -/
def claim (a : FifoLock τ μ) (m : μ) (t : τ) : FifoLock τ μ :=
  { a with owner := Function.update a.owner m (some t) }

def arrive (a : FifoLock τ μ) (m : μ) (t : τ) : FifoLock τ μ :=
  { a with queue := Function.update a.queue m (a.queue m ++ [t]) }

/-- The owner leaves, and whoever came first takes over. -/
def release (a : FifoLock τ μ) (m : μ) : FifoLock τ μ :=
  { owner := Function.update a.owner m (a.queue m).head?,
    queue := Function.update a.queue m (a.queue m).tail }

variable {a : FifoLock τ μ} {m : μ} {t : τ}

theorem Ok.claim (h : a.Ok) (hm : a.owner m = none) (t : τ) : (a.claim m t).Ok := by
  have hempty : a.queue m = [] := by
    by_contra hne
    exact h.owned m hne hm
  refine ⟨⟨h.once, h.single⟩, fun m' hne => ?_, fun m' t' ht => ?_⟩
  · by_cases he : m' = m
    · simp [FifoLock.claim, he]
    · simpa [FifoLock.claim, he] using h.owned m' hne
  · by_cases he : m' = m
    · subst he
      have ht' : t' ∈ a.queue m' := ht
      rw [hempty] at ht'
      exact absurd ht' (by simp)
    · simpa [FifoLock.claim, he] using h.apart m' t' ht

/-- A task that waits nowhere joins the queue of a lock that somebody else owns. -/
theorem Ok.arrive (h : a.Ok) (hm : a.owner m ≠ none) (hown : a.owner m ≠ some t)
    (ht : ∀ m', t ∉ a.queue m') :
    (a.arrive m t).Ok := by
  have hmem : ∀ m' t', t' ∈ (a.arrive m t).queue m' → t' ∈ a.queue m' ∨ m' = m ∧ t' = t := by
    intro m' t' hm'
    by_cases he : m' = m
    · subst he
      simpa [FifoLock.arrive, or_comm] using hm'
    · simp only [FifoLock.arrive, Function.update_of_ne he] at hm'
      exact .inl hm'
  refine ⟨⟨fun m' => ?_, fun m₁ m₂ t' h1 h2 => ?_⟩, fun m' hne => ?_, fun m' t' h1 => ?_⟩
  · by_cases he : m' = m
    · subst he
      simp only [FifoLock.arrive, Function.update_self]
      exact List.nodup_append.mpr ⟨h.once m', List.nodup_singleton t, by
        rintro x hx y hy rfl
        exact ht m' (List.mem_singleton.mp hy ▸ hx)⟩
    · simpa [FifoLock.arrive, he] using h.once m'
  · rcases hmem m₁ t' h1 with h1 | ⟨rfl, rfl⟩ <;> rcases hmem m₂ t' h2 with h2 | ⟨h2, h2'⟩
    · exact h.single m₁ m₂ t' h1 h2
    · exact absurd (h2' ▸ h1) (ht m₁)
    · exact absurd h2 (ht m₂)
    · exact h2.symm
  · by_cases he : m' = m
    · exact he ▸ hm
    · refine h.owned m' ?_
      simpa [FifoLock.arrive, he] using hne
  · rcases hmem m' t' h1 with h1 | ⟨rfl, rfl⟩
    · exact h.apart m' t' h1
    · exact hown

theorem Ok.release (h : a.Ok) (m : μ) : (a.release m).Ok := by
  have hmem : ∀ m' t', t' ∈ (a.release m).queue m' → t' ∈ a.queue m' := by
    intro m' t' ht'
    by_cases he : m' = m
    · subst he
      simp only [FifoLock.release, Function.update_self] at ht'
      exact List.mem_of_mem_tail ht'
    · simpa [FifoLock.release, he] using ht'
  refine ⟨⟨fun m' => ?_, fun m₁ m₂ t' h1 h2 => h.single m₁ m₂ t' (hmem _ _ h1) (hmem _ _ h2)⟩,
    fun m' hne => ?_,
    fun m' t' ht' => ?_⟩
  · by_cases he : m' = m
    · subst he
      simp only [FifoLock.release, Function.update_self]
      exact (h.once m').sublist (List.tail_sublist _)
    · simpa [FifoLock.release, he] using h.once m'
  · by_cases he : m' = m
    · subst he
      simp only [FifoLock.release, Function.update_self] at hne ⊢
      cases hq : a.queue m' <;> simp [hq] at hne ⊢
    · simp only [FifoLock.release, Function.update_of_ne he] at hne ⊢
      exact h.owned m' hne
  · by_cases he : m' = m
    · subst he
      have hnd := h.once m'
      simp only [FifoLock.release, Function.update_self] at ht' ⊢
      cases hq : a.queue m' with
      | nil => simp
      | cons b q =>
        rw [hq] at ht' hnd
        rintro ⟨⟩
        exact (List.nodup_cons.mp hnd).1 ht'
    · simpa [FifoLock.release, he] using h.apart m' t' (hmem _ _ ht')

variable [DecidableEq τ]

def cancel (a : FifoLock τ μ) (m : μ) (t : τ) : FifoLock τ μ :=
  { a with queue := Function.update a.queue m ((a.queue m).erase t) }

theorem mem_cancel (h : a.Queues) (m' : μ) (t' : τ) :
    t' ∈ (a.cancel m t).queue m' ↔ t' ∈ a.queue m' ∧ ¬(m' = m ∧ t' = t) := by
  by_cases he : m' = m
  · subst he
    simp only [FifoLock.cancel, Function.update_self, (h.once m').mem_erase_iff, true_and]
    exact and_comm
  · simp [FifoLock.cancel, he]

theorem Ok.cancel (h : a.Ok) (m : μ) (t : τ) : (a.cancel m t).Ok := by
  have hmem : ∀ m' t', t' ∈ (a.cancel m t).queue m' → t' ∈ a.queue m' := fun m' t' ht' =>
    ((mem_cancel h.toQueues m' t').mp ht').1
  refine ⟨⟨fun m' => ?_, fun m₁ m₂ t' h1 h2 => h.single m₁ m₂ t' (hmem _ _ h1) (hmem _ _ h2)⟩,
    fun m' hne => h.owned m' fun hnil => ?_, fun m' t' ht' => h.apart m' t' (hmem _ _ ht')⟩
  · by_cases he : m' = m
    · subst he
      simpa [FifoLock.cancel] using (h.once m').erase t
    · simpa [FifoLock.cancel, he] using h.once m'
  · obtain ⟨x, hx⟩ := List.exists_mem_of_ne_nil _ hne
    have hx' := hmem m' x hx
    rw [hnil] at hx'
    exact absurd hx' (by simp)

/-- The queue of a lock after an event, when the event can happen: only the first may take over. -/
def Event.apply (m : μ) (q : List τ) : Event τ μ → Option (List τ)
  | .arrive m' t => some (if m' = m then q ++ [t] else q)
  | .pass m' t => if m' = m then (if q.head? = some t then some q.tail else none) else some q
  | .cancel m' t => some (if m' = m then q.erase t else q)

/-- The queue of a lock after all events so far. -/
def replay (m : μ) (q : List τ) (l : List (Event τ μ)) : Option (List τ) :=
  l.foldlM (Event.apply m) q

theorem replay_append (m : μ) {q q' : List τ} {l l' : List (Event τ μ)}
    (h : replay m q l = some q') :
    replay m q (l ++ l') = replay m q' l' := by
  unfold replay at *
  rw [List.foldlM_append, h]
  rfl

end FifoLock
