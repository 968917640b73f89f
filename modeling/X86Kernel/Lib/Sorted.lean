import Mathlib.Data.List.Sort
import Mathlib.Order.Basic
import Mathlib.Tactic.Tauto

/-! A list kept in the order of a key by putting each new element behind its equals: it is the
stable sort of the elements in the order they came. -/
namespace Sorted

variable {α β γ δ : Type*} [LinearOrder β] [LinearOrder δ] (key : α → β)

/-- Before the first element with a greater key. -/
def insert (a : α) : List α → List α
  | [] => [a]
  | b :: l => if key a < key b then a :: b :: l else b :: insert a l

/-- The elements by key; equals stay in their order. -/
def sort (l : List α) : List α := l.insertionSort fun a b => key a ≤ key b

instance totalKey : Std.Total fun a b : α => key a ≤ key b := ⟨fun a b => le_total (key a) (key b)⟩

instance transKey : IsTrans α fun a b => key a ≤ key b := ⟨fun _ _ _ h h' => le_trans h h'⟩

theorem pairwise_sort (l : List α) : (sort key l).Pairwise fun a b => key a ≤ key b :=
  List.pairwise_insertionSort (fun a b => key a ≤ key b) l

theorem mem_sort {l : List α} {a : α} : a ∈ sort key l ↔ a ∈ l := List.mem_insertionSort _

variable {key} in
theorem mem_insert {a b : α} {l : List α} : b ∈ insert key a l ↔ b = a ∨ b ∈ l := by
  induction l with
  | nil => simp [insert]
  | cons c l ih =>
    rw [insert]
    split_ifs
    · rw [List.mem_cons]
    · rw [List.mem_cons, ih, List.mem_cons]
      tauto

theorem insert_orderedInsert (a x : α) (l : List α) :
    insert key x (l.orderedInsert (fun a b => key a ≤ key b) a) =
      (insert key x l).orderedInsert (fun a b => key a ≤ key b) a := by
  induction l with
  | nil =>
    rw [List.orderedInsert_nil]
    unfold insert insert
    rw [List.orderedInsert_cons, List.orderedInsert_nil]
    split_ifs with h1 h2 h2
    · exact absurd h2 (not_le.mpr h1)
    · rfl
    · rfl
    · exact absurd (not_lt.mp h1) h2
  | cons b l ih =>
    rw [List.orderedInsert_cons]
    by_cases hab : key a ≤ key b
    · rw [if_pos hab]
      by_cases hxb : key x < key b
      · rw [insert, insert, if_pos hxb, List.orderedInsert_cons, List.orderedInsert_cons,
          if_pos hab]
        split_ifs with h1 h2 h2
        · exact absurd h2 (not_le.mpr h1)
        · rfl
        · rfl
        · exact absurd (not_lt.mp h1) h2
      · rw [insert, insert, if_neg hxb, if_neg (not_lt.mpr (hab.trans (not_lt.mp hxb))),
          List.orderedInsert_cons,
          if_pos hab]
    · rw [if_neg hab]
      by_cases hxb : key x < key b
      · rw [insert, insert, if_pos hxb, if_pos hxb, List.orderedInsert_cons,
          List.orderedInsert_cons, if_neg hab,
          if_neg (not_le.mpr (hxb.trans (not_le.mp hab)))]
      · rw [insert, insert, if_neg hxb, if_neg hxb, List.orderedInsert_cons, if_neg hab, ih]

/-- A new element joins the sorted list as the last that came. -/
theorem insert_sort (a : α) (l : List α) : insert key a (sort key l) = sort key (l ++ [a]) := by
  unfold sort
  induction l with
  | nil => rfl
  | cons b l ih =>
    rw [List.insertionSort_cons, insert_orderedInsert, ih, List.cons_append,
      List.insertionSort_cons]

theorem insert_map {key' : γ → δ} (f : α → γ) (a : α) {l : List α}
    (h : ∀ b ∈ l, key' (f a) < key' (f b) ↔ key a < key b) :
    insert key' (f a) (l.map f) = (insert key a l).map f := by
  induction l with
  | nil => rfl
  | cons b l ih =>
    rw [List.map_cons, insert, insert]
    by_cases hab : key a < key b
    · rw [if_pos hab, if_pos ((h b (.head _)).mpr hab)]
      rfl
    · rw [if_neg hab, if_neg fun h' => hab ((h b (.head _)).mp h'),
        ih fun b' hb => h b' (.tail _ hb)]
      rfl

theorem orderedInsert_of_forall {a : α} {l : List α} (h : ∀ b ∈ l, key a ≤ key b) :
    l.orderedInsert (fun a b => key a ≤ key b) a = a :: l := by
  cases l with
  | nil => rfl
  | cons b l => rw [List.orderedInsert_cons, if_pos (h b (.head _))]

theorem filter_orderedInsert (p : α → Bool) (a : α) {l : List α}
    (hl : l.Pairwise fun a b => key a ≤ key b) :
    (l.orderedInsert (fun a b => key a ≤ key b) a).filter p =
      if p a then (l.filter p).orderedInsert (fun a b => key a ≤ key b) a else l.filter p := by
  induction l with
  | nil =>
    rw [List.orderedInsert_nil, List.filter_cons]
    rfl
  | cons b l ih =>
    obtain ⟨hb, hl⟩ := List.pairwise_cons.mp hl
    rw [List.orderedInsert_cons]
    by_cases hab : key a ≤ key b
    · rw [if_pos hab, List.filter_cons]
      split_ifs with hp
      · -- everything that is left is behind `a`
        rw [orderedInsert_of_forall]
        intro c hc
        rcases List.mem_cons.mp (List.mem_of_mem_filter hc) with rfl | hc
        · exact hab
        · exact hab.trans (hb c hc)
      · rfl
    · rw [if_neg hab, List.filter_cons, List.filter_cons, ih hl]
      by_cases hpb : p b
      · rw [if_pos hpb, if_pos hpb]
        split_ifs with hp
        · rw [List.orderedInsert_cons, if_neg hab]
        · rfl
      · rw [if_neg hpb, if_neg hpb]

theorem sort_filter (p : α → Bool) (l : List α) :
    sort key (l.filter p) = (sort key l).filter p := by
  unfold sort
  induction l with
  | nil => rfl
  | cons a l ih =>
    have hl : (l.insertionSort fun a b => key a ≤ key b).Pairwise fun a b => key a ≤ key b :=
      pairwise_sort key l
    rw [List.insertionSort_cons, filter_orderedInsert key p a hl, ← ih, List.filter_cons]
    split_ifs
    · rw [List.insertionSort_cons]
    · rfl

/-- The elements up to a key are a first part of a sorted list. -/
theorem span_of_pairwise {p : α → Bool} {t : β} {l : List α}
    (hl : l.Pairwise fun a b => key a ≤ key b) (hp : ∀ a ∈ l, p a = true ↔ key a ≤ t) :
    l.takeWhile p = l.filter (fun a => key a ≤ t) ∧ l.dropWhile p = l.filter fun a =>
      !decide (key a ≤ t) := by
  induction l with
  | nil => exact ⟨rfl, rfl⟩
  | cons a l ih =>
    obtain ⟨ha, hl⟩ := List.pairwise_cons.mp hl
    have hpa := hp a (.head _)
    obtain ⟨ih1, ih2⟩ := ih hl fun b hb => hp b (.tail _ hb)
    by_cases hat : key a ≤ t
    · rw [List.takeWhile_cons_of_pos (hpa.mpr hat), List.dropWhile_cons_of_pos (hpa.mpr hat),
        List.filter_cons_of_pos (by simpa using hat),
        List.filter_cons_of_neg (by simpa using hat), ih1, ih2]
      exact ⟨rfl, rfl⟩
    · have hlate : ∀ b ∈ a :: l, ¬key b ≤ t := by
        intro b hb
        rcases List.mem_cons.mp hb with rfl | hb
        · exact hat
        · exact not_le.mpr ((not_le.mp hat).trans_le (ha b hb))
      rw [List.takeWhile_cons_of_neg fun h => hat (hpa.mp h),
        List.dropWhile_cons_of_neg fun h => hat (hpa.mp h),
        List.filter_eq_nil_iff.mpr (by simpa using hlate),
        List.filter_eq_self.mpr (by simpa using hlate)]
      exact ⟨rfl, rfl⟩

end Sorted
