import Mathlib.Algebra.BigOperators.Group.List.Basic
import Mathlib.Algebra.GroupWithZero.Nat
import Mathlib.Data.List.Infix

/-!
# Prefixes within a budget

`fitting weight budget l` is what is taken of `l` from the front as long as the weights fit into
the budget. It is the longest prefix within the budget (`prefix_fitting_iff`).
-/

namespace Budget

variable {α : Type*} (weight : α → ℕ)

/-- The weight of all elements. -/
def total (l : List α) : ℕ :=
  (l.map weight).sum

def fitting : ℕ → List α → List α
  | _, [] => []
  | budget, a :: l => if weight a ≤ budget then a :: fitting (budget - weight a) l else []

variable {weight}

@[simp] theorem total_nil : total weight [] = 0 :=
  rfl

@[simp] theorem total_cons (a : α) (l : List α) :
    total weight (a :: l) = weight a + total weight l :=
  List.sum_cons

theorem fitting_prefix : ∀ {budget : ℕ} {l : List α}, fitting weight budget l <+: l
  | _, [] => List.prefix_rfl
  | budget, a :: l => by
    rw [fitting]
    split
    · exact List.cons_prefix_cons.2 ⟨rfl, fitting_prefix⟩
    · exact List.nil_prefix

/-- A prefix is within the budget if it is one of what is taken. -/
theorem prefix_fitting_iff : ∀ {budget : ℕ} {l taken : List α}, taken <+: l →
    (taken <+: fitting weight budget l ↔ total weight taken ≤ budget)
  | _, _, [], _ => ⟨fun _ => Nat.zero_le _, fun _ => List.nil_prefix⟩
  | _, [], _ :: _, h => absurd (List.prefix_nil.1 h) (List.cons_ne_nil _ _)
  | budget, a :: l, b :: taken, h => by
    obtain ⟨rfl, hrest⟩ := List.cons_prefix_cons.1 h
    rw [fitting, total_cons]
    split
    · rename_i hfits
      rw [List.cons_prefix_cons, and_iff_right rfl, prefix_fitting_iff hrest]
      omega
    · rename_i hfits
      refine ⟨fun htaken => absurd (List.prefix_nil.1 htaken) (List.cons_ne_nil _ _), ?_⟩
      omega

theorem total_fitting_le (budget : ℕ) (l : List α) :
    total weight (fitting weight budget l) ≤ budget :=
  (prefix_fitting_iff fitting_prefix).1 List.prefix_rfl

/-- Everything is taken if all of it is within the budget. -/
theorem fitting_eq_self_iff {budget : ℕ} {l : List α} :
    fitting weight budget l = l ↔ total weight l ≤ budget := by
  rw [← prefix_fitting_iff List.prefix_rfl]
  constructor
  · intro h
    rw [h]
  · exact fun h => fitting_prefix.eq_of_length_le h.length_le

end Budget
