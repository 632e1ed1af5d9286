import Mathlib.Data.List.Sort

/-!
# Ranking by score

Elements with higher scores come first, and of those with the same score the one that was
earlier. `ranked` sorts by this order (`pairwise_ranked`). Nothing that is left out of its first
elements comes before one of them (`before_of_take_ranked`).
-/

namespace Ranking

variable {α β : Type*} [LinearOrder β] (score : α → β) (place : α → ℕ)

/-- The order of a ranking. -/
def Before (a b : α) : Prop :=
  score b < score a ∨ score a = score b ∧ place a ≤ place b

instance : DecidableRel (Before score place) :=
  fun _ _ => inferInstanceAs (Decidable (_ ∨ _))

instance : Std.Total (Before score place) where
  total a b := by
    rcases lt_trichotomy (score a) (score b) with h | h | h
    · exact Or.inr (Or.inl h)
    · rcases le_total (place a) (place b) with hplace | hplace
      · exact Or.inl (Or.inr ⟨h, hplace⟩)
      · exact Or.inr (Or.inr ⟨h.symm, hplace⟩)
    · exact Or.inl (Or.inl h)

instance : IsTrans α (Before score place) where
  trans := by
    rintro a b c (hab | ⟨hab, hplace⟩) (hbc | ⟨hbc, hplace'⟩)
    · exact Or.inl (hbc.trans hab)
    · exact Or.inl (hbc ▸ hab)
    · exact Or.inl (hab ▸ hbc)
    · exact Or.inr ⟨hab.trans hbc, hplace.trans hplace'⟩

/-- The elements in the order of the ranking. -/
def ranked (l : List α) : List α :=
  l.insertionSort (Before score place)

variable {score place}

theorem perm_ranked (l : List α) : (ranked score place l).Perm l :=
  List.perm_insertionSort _ l

/-- The elements are in order, strictly if no two have the same place. -/
theorem pairwise_ranked {l : List α} (h : (l.map place).Nodup) :
    (ranked score place l).Pairwise fun a b =>
      score b < score a ∨ score a = score b ∧ place a < place b := by
  have hnodup : (ranked score place l).Pairwise fun a b => place a ≠ place b :=
    List.pairwise_map.1 (((perm_ranked l).map place).nodup_iff.2 h)
  have hsorted : (ranked score place l).Pairwise (Before score place) :=
    List.pairwise_insertionSort _ l
  refine (hsorted.and hnodup).imp ?_
  rintro a b ⟨hlt | ⟨heq, hle⟩, hne⟩
  · exact Or.inl hlt
  · exact Or.inr ⟨heq, lt_of_le_of_ne hle hne⟩

/-- What is left out comes after what is taken. -/
theorem before_of_take_ranked {l : List α} {n : ℕ} {a b : α}
    (ha : a ∈ (ranked score place l).take n) (hb : b ∈ l)
    (hout : b ∉ (ranked score place l).take n) : Before score place a b := by
  have hsorted : (ranked score place l).Pairwise (Before score place) :=
    List.pairwise_insertionSort _ l
  rw [← List.take_append_drop n (ranked score place l)] at hsorted
  have hrest : b ∈ (ranked score place l).drop n := by
    have hall : b ∈ ranked score place l := (perm_ranked l).mem_iff.2 hb
    rw [← List.take_append_drop n (ranked score place l)] at hall
    exact (List.mem_append.1 hall).resolve_left hout
  exact (List.pairwise_append.1 hsorted).2.2 a ha b hrest

end Ranking
