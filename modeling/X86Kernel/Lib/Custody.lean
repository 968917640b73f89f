import Mathlib.Data.List.Nodup
import Mathlib.Logic.Function.Basic

/-! Things that are handed out and come back, with a log of what happened to each of them. -/
namespace Custody

variable {κ β : Type*} [DecidableEq κ]

/-- What happened to one thing. -/
def history (log : List (κ × β)) (k : κ) : List β := (log.filter fun e => e.1 = k).map Prod.snd

theorem history_append (log log' : List (κ × β)) (k : κ) :
    history (log ++ log') k = history log k ++ history log' k := by
  unfold history
  rw [List.filter_append, List.map_append]

theorem history_self (es : List β) (k : κ) : history (es.map (Prod.mk k)) k = es := by
  induction es with
  | nil => rfl
  | cons e es ih =>
    unfold history at ih ⊢
    rw [List.map_cons, List.filter_cons_of_pos (by simp), List.map_cons, ih]

theorem history_of_ne (es : List β) {k k' : κ} (h : k' ≠ k) :
    history (es.map (Prod.mk k)) k' = [] := by
  unfold history
  rw [List.filter_eq_nil_iff.mpr, List.map_nil]
  intro e he
  obtain ⟨b, -, rfl⟩ := List.mem_map.mp he
  simpa using h.symm

theorem history_append_self (log : List (κ × β)) (es : List β) (k : κ) :
    history (log ++ es.map (Prod.mk k)) k = history log k ++ es := by
      rw [history_append, history_self]

theorem history_append_of_ne (log : List (κ × β)) (es : List β) {k k' : κ} (h : k' ≠ k) :
    history (log ++ es.map (Prod.mk k)) k' = history log k' := by
  rw [history_append, history_of_ne es h, List.append_nil]

/-- Whole cycles, one after another. -/
inductive Cycles (Whole : List β → Prop) : List β → Prop where
  | nil : Cycles Whole []
  | snoc {l w : List β} (hl : Cycles Whole l) (hw : Whole w) : Cycles Whole (l ++ w)

end Custody

open Custody

/-- Every thing is with at most one holder, once. The history of one that is with a holder ends with
how it came to this holder, before that there are whole cycles only; the history of any other has
whole cycles only. -/
structure Custody {κ β ι : Type*} [DecidableEq κ] (log : List (κ × β)) (held : ι → List κ)
    (Opened : ι → List β → Prop) (Whole : List β → Prop) : Prop where
  nodup : ∀ i, (held i).Nodup
  alone : ∀ i j k, k ∈ held i → k ∈ held j → i = j
  opened : ∀ i, ∀ k ∈ held i, ∃ l o, Cycles Whole l ∧ Opened i o ∧ history log k = l ++ o
  closed : ∀ k, (∀ i, k ∉ held i) → Cycles Whole (history log k)

namespace Custody

variable {κ β ι : Type*} [DecidableEq κ] {log : List (κ × β)} {held : ι → List κ}
  {Opened Opened' : ι → List β → Prop} {Whole : List β → Prop} {i : ι} {k : κ} {es : List β}

theorem nil : Custody (κ := κ) [] (fun _ : ι => []) Opened Whole where
  nodup _ := List.nodup_nil
  alone _ _ _ h := absurd h List.not_mem_nil
  opened _ _ h := absurd h List.not_mem_nil
  closed _ _ := .nil

/-- The holders stay, and what they hold came to them in the same way. -/
theorem congr (h : Custody log held Opened Whole)
    (hopened : ∀ i o, held i ≠ [] → Opened i o → Opened' i o) :
    Custody log held Opened' Whole where
  nodup := h.nodup
  alone := h.alone
  opened i k hk := by
    obtain ⟨l, o, hl, ho, hlog⟩ := h.opened i k hk
    exact ⟨l, o, hl, hopened i o (List.ne_nil_of_mem hk) ho, hlog⟩
  closed := h.closed

/-- A thing that no one holds is taken, and comes back. -/
theorem pass (h : Custody log held Opened Whole) (hk : ∀ j, k ∉ held j) (hwhole : Whole es) :
    Custody (log ++ es.map (Prod.mk k)) held Opened Whole where
  nodup := h.nodup
  alone := h.alone
  opened i k' hk' := by
    have hne : k' ≠ k := by
      rintro rfl
      exact hk i hk'
    obtain ⟨l, o, hl, ho, hlog⟩ := h.opened i k' hk'
    exact ⟨l, o, hl, ho, (history_append_of_ne log es hne).trans hlog⟩
  closed k' hfree := by
    by_cases hk' : k' = k
    · subst hk'
      rw [history_append_self]
      exact .snoc (h.closed k' hfree) hwhole
    · rw [history_append_of_ne log es hk']
      exact h.closed k' hfree

variable [DecidableEq ι]

/-- A thing that no one holds is taken, and given to a holder. -/
theorem take (h : Custody log held Opened Whole) (hk : ∀ j, k ∉ held j) (hopen : Opened i es) :
    Custody (log ++ es.map (Prod.mk k)) (Function.update held i (held i ++ [k])) Opened Whole := by
  have hmem : ∀ j k', k' ∈ Function.update held i (held i ++ [k]) j ↔
      k' ∈ held j ∨ j = i ∧ k' = k := by
    intro j k'
    by_cases hj : j = i
    · subst hj
      simp
    · simp [hj]
  constructor
  · intro j
    by_cases hj : j = i
    · subst hj
      rw [Function.update_self]
      exact (h.nodup j).append (List.nodup_singleton k) (by simpa using hk j)
    · rw [Function.update_of_ne hj]
      exact h.nodup j
  · intro j j' k' hj hj'
    rw [hmem] at hj hj'
    rcases hj with hj | ⟨hj, hk'⟩ <;> rcases hj' with hj' | ⟨hj', hk''⟩
    · exact h.alone j j' k' hj hj'
    · exact absurd (hk'' ▸ hj) (hk j)
    · exact absurd (hk' ▸ hj') (hk j')
    · rw [hj, hj']
  · intro j k' hj
    rw [hmem] at hj
    by_cases hk' : k' = k
    · subst hk'
      have hji : j = i := by
        rcases hj with hj | hj
        · exact absurd hj (hk j)
        · exact hj.1
      refine ⟨history log k', es, h.closed k' hk, hji ▸ hopen, history_append_self log es k'⟩
    · obtain ⟨l, o, hl, ho, hlog⟩ := h.opened j k' (hj.resolve_right fun hj => hk' hj.2)
      exact ⟨l, o, hl, ho, (history_append_of_ne log es hk').trans hlog⟩
  · intro k' hfree
    have hne : k' ≠ k := by
      rintro rfl
      exact hfree i ((hmem i k').mpr (.inr ⟨rfl, rfl⟩))
    rw [history_append_of_ne log es hne]
    exact h.closed k' fun j hj => hfree j ((hmem j k').mpr (.inl hj))

/-- The first thing that a holder has comes back. -/
theorem give {l : List κ} (h : Custody log held Opened Whole) (hl : held i = k :: l)
    (hclose : ∀ o, Opened i o → Whole (o ++ es)) :
    Custody (log ++ es.map (Prod.mk k)) (Function.update held i l) Opened Whole := by
  have hnodup := h.nodup i
  rw [hl] at hnodup
  have hmem : ∀ j k', k' ∈ Function.update held i l j ↔ k' ∈ held j ∧ k' ≠ k := by
    intro j k'
    by_cases hj : j = i
    · subst hj
      rw [Function.update_self, hl, List.mem_cons]
      have hk := (List.nodup_cons.mp hnodup).1
      constructor
      · intro hk'
        exact ⟨.inr hk', fun heq => hk (heq ▸ hk')⟩
      · exact fun hk' => hk'.1.resolve_left hk'.2
    · rw [Function.update_of_ne hj]
      constructor
      · intro hk'
        refine ⟨hk', fun heq => hj ?_⟩
        exact h.alone j i k' hk' (by rw [hl, heq]; exact List.mem_cons_self)
      · exact And.left
  constructor
  · intro j
    by_cases hj : j = i
    · subst hj
      rw [Function.update_self]
      exact (List.nodup_cons.mp hnodup).2
    · rw [Function.update_of_ne hj]
      exact h.nodup j
  · intro j j' k' hj hj'
    exact h.alone j j' k' ((hmem j k').mp hj).1 ((hmem j' k').mp hj').1
  · intro j k' hj
    obtain ⟨hj, hne⟩ := (hmem j k').mp hj
    obtain ⟨l', o, hl', ho, hlog⟩ := h.opened j k' hj
    exact ⟨l', o, hl', ho, (history_append_of_ne log es hne).trans hlog⟩
  · intro k' hfree
    by_cases hk' : k' = k
    · subst hk'
      obtain ⟨l', o, hl', ho, hlog⟩ := h.opened i k' (by rw [hl]; exact List.mem_cons_self)
      rw [history_append_self, hlog, List.append_assoc]
      exact .snoc hl' (hclose o ho)
    · rw [history_append_of_ne log es hk']
      exact h.closed k' fun j hj => hfree j ((hmem j k').mpr ⟨hj, hk'⟩)

end Custody
