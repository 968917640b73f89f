import Mathlib.Data.Finset.Dedup
import Mathlib.Data.List.Nodup
import Mathlib.Logic.Equiv.Basic

/-! Tables that are rearrangements of each other, apart from what lies outside of a set of
places. -/

/-- `g` is `f` with the values at the places of `S` moved among them. -/
def Rearranged {ι α : Type*} (S : Set ι) (f g : ι → α) : Prop :=
  ∃ σ : Equiv.Perm ι, (∀ x, x ∉ S → σ x = x) ∧ ∀ x, g x = f (σ x)

namespace Rearranged

variable {ι α : Type*} {S T : Set ι} {f g h : ι → α}

theorem refl (S : Set ι) (f : ι → α) : Rearranged S f f :=
  ⟨Equiv.refl ι, fun _ _ => rfl, fun _ => rfl⟩

theorem trans (hfg : Rearranged S f g) (hgh : Rearranged S g h) : Rearranged S f h := by
  obtain ⟨σ, hσ, hg⟩ := hfg
  obtain ⟨τ, hτ, hh⟩ := hgh
  refine ⟨τ.trans σ, fun x hx => ?_, fun x => ?_⟩
  · simp [hτ x hx, hσ x hx]
  · simp [hh, hg]

theorem mono (hST : S ⊆ T) (hfg : Rearranged S f g) : Rearranged T f g := by
  obtain ⟨σ, hσ, hg⟩ := hfg
  exact ⟨σ, fun x hx => hσ x fun hS => hx (hST hS), hg⟩

theorem swap [DecidableEq ι] {i j : ι} (hi : i ∈ S) (hj : j ∈ S) (f : ι → α) :
    Rearranged S f fun x => f (Equiv.swap i j x) := by
  refine ⟨Equiv.swap i j, fun x hx => ?_, fun _ => rfl⟩
  apply Equiv.swap_apply_of_ne_of_ne
  · rintro rfl
    exact hx hi
  · rintro rfl
    exact hx hj

theorem outside (hfg : Rearranged S f g) {x : ι} (hx : x ∉ S) : g x = f x := by
  obtain ⟨σ, hσ, hg⟩ := hfg
  rw [hg, hσ x hx]

/-- What holds of every value in `S` still does. -/
theorem forall_mem (hfg : Rearranged S f g) {P : α → Prop} (hf : ∀ x ∈ S, P (f x)) :
    ∀ x ∈ S, P (g x) := by
  obtain ⟨σ, hσ, hg⟩ := hfg
  intro x hx
  rw [hg]
  apply hf
  by_contra hout
  -- a place outside is its own image, and only its own
  have hfix := σ.injective (hσ _ hout)
  rw [hfix] at hout
  exact hout hx

/-- Over a list of places that holds all of `S`, the values are a permutation. -/
theorem map_perm (hfg : Rearranged S f g) {l : List ι} (hl : l.Nodup) (hS : ∀ x ∈ S, x ∈ l) :
    (l.map g).Perm (l.map f) := by
  obtain ⟨σ, hσ, hg⟩ := hfg
  have hmem : ∀ x, σ x ∈ l ↔ x ∈ l := by
    intro x
    by_cases hx : x ∈ S
    · have hσx : σ x ∈ S := by
        by_contra hout
        have hfix := σ.injective (hσ _ hout)
        rw [hfix] at hout
        exact hout hx
      exact iff_of_true (hS _ hσx) (hS _ hx)
    · rw [hσ x hx]
  have hperm : (l.map σ).Perm l := by
    rw [List.perm_ext_iff_of_nodup (hl.map σ.injective) hl]
    intro y
    rw [List.mem_map]
    constructor
    · rintro ⟨x, hx, rfl⟩
      exact (hmem x).mpr hx
    · intro hy
      refine ⟨σ.symm y, ?_, σ.apply_symm_apply y⟩
      rwa [← hmem, σ.apply_symm_apply]
  have hmap : l.map g = (l.map σ).map f := by
    rw [List.map_map]
    exact List.map_congr_left fun x _ => hg x
  rw [hmap]
  exact hperm.map f

end Rearranged
