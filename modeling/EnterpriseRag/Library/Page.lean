import Mathlib.Data.List.Sort

/-!
# The first page of a listing

A store that lists its records by key, and at most `n` of them, returns the first `n` of
the sorted list. A record is sure to be on this page if at most `n` keys are no greater
than its own (`forall_lt_of_drop_iff`), and it is on the page exactly then if no other has
its key (`mem_page_iff`).
-/

namespace Page

variable {α κ : Type*} [LinearOrder κ]

/-- The first `n` elements by key. -/
def page (key : α → κ) (n : ℕ) (l : List α) : List α :=
  (l.insertionSort fun a b => key a ≤ key b).take n

/-- The elements that the page leaves out. -/
def rest (key : α → κ) (n : ℕ) (l : List α) : List α :=
  (l.insertionSort fun a b => key a ≤ key b).drop n

variable {key : α → κ} {n : ℕ} {l : List α} {a : α}

local instance total_le (key : α → κ) : Std.Total fun a b : α => key a ≤ key b :=
  ⟨fun a b => le_total (key a) (key b)⟩

local instance trans_le (key : α → κ) : IsTrans α fun a b : α => key a ≤ key b :=
  ⟨fun _ _ _ => le_trans⟩

theorem perm_page_append_rest (key : α → κ) (n : ℕ) (l : List α) :
    (page key n l ++ rest key n l).Perm l := by
  rw [page, rest, List.take_append_drop]
  exact List.perm_insertionSort _ l

theorem mem_of_mem_page (h : a ∈ page key n l) : a ∈ l :=
  (perm_page_append_rest key n l).mem_iff.1 (List.mem_append_left _ h)

theorem mem_page_or_rest (h : a ∈ l) : a ∈ page key n l ∨ a ∈ rest key n l :=
  List.mem_append.1 ((perm_page_append_rest key n l).mem_iff.2 h)

theorem filter_perm_of_rest {p : α → Bool} (h : (rest key n l).filter p = []) :
    ((page key n l).filter p).Perm (l.filter p) := by
  have hperm := (perm_page_append_rest key n l).filter p
  rwa [List.filter_append, h, List.append_nil] at hperm

/-- A page that has as many of them as the whole list leaves none out. -/
theorem filter_rest_eq_nil {p : α → Bool}
    (h : ((page key n l).filter p).length = (l.filter p).length) :
    (rest key n l).filter p = [] := by
  have hlength := ((perm_page_append_rest key n l).filter p).length_eq
  rw [List.filter_append, List.length_append, h] at hlength
  exact List.length_eq_zero_iff.1 (by omega)

theorem le_of_mem_page {b : α} (ha : a ∈ page key n l) (hb : b ∈ rest key n l) :
    key a ≤ key b := by
  have hsorted := List.pairwise_insertionSort (fun a b => key a ≤ key b) l
  rw [← List.take_append_drop n (l.insertionSort _)] at hsorted
  exact (List.pairwise_append.1 hsorted).2.2 a ha b hb

theorem forall_lt_drop_iff {k : κ} {l : List α} (hl : l.Pairwise fun a b => key a ≤ key b) :
    ∀ {n : ℕ}, (∀ b ∈ l.drop n, k < key b) ↔ l.countP (fun b => key b ≤ k) ≤ n := by
  induction l with
  | nil => simp
  | cons a l ih =>
    obtain ⟨ha, hl⟩ := List.pairwise_cons.1 hl
    intro n
    cases n with
    | zero => simp [List.countP_eq_zero]
    | succ n =>
      rw [List.drop_succ_cons]
      by_cases hk : key a ≤ k
      · rw [ih hl, List.countP_cons_of_pos (by simpa using hk), Nat.succ_le_succ_iff]
      · have hgt : ∀ b ∈ l, k < key b := fun b hb => (not_le.1 hk).trans_le (ha b hb)
        have hnone : l.countP (fun b => key b ≤ k) = 0 := by
          simpa [List.countP_eq_zero] using hgt
        rw [List.countP_cons_of_neg (by simpa using hk), hnone]
        exact iff_of_true (fun b hb => hgt b (List.mem_of_mem_drop hb)) (Nat.zero_le _)

/-- All keys that are left out are greater than `k` if at most `n` are not. -/
theorem forall_lt_rest_iff {k : κ} :
    (∀ b ∈ rest key n l, k < key b) ↔ l.countP (fun b => key b ≤ k) ≤ n := by
  rw [rest, forall_lt_drop_iff (List.pairwise_insertionSort _ l),
    (List.perm_insertionSort _ l).countP_eq]

/-- An element whose key no other has is on the page if at most `n` keys are no greater. -/
theorem not_mem_rest_iff (ha : a ∈ l) (hunique : ∀ b ∈ l, key b = key a → b = a) :
    a ∉ rest key n l ↔ l.countP (fun b => key b ≤ key a) ≤ n := by
  rw [← forall_lt_rest_iff]
  constructor
  · intro hrest b hb
    refine lt_of_le_of_ne (le_of_mem_page ((mem_page_or_rest ha).resolve_right hrest) hb) ?_
    intro heq
    have hmem : b ∈ l := (perm_page_append_rest key n l).mem_iff.1 (List.mem_append_right _ hb)
    exact hrest (hunique b hmem heq.symm ▸ hb)
  · exact fun h hmem => lt_irrefl _ (h a hmem)

theorem mem_page_iff (hnodup : (l.map key).Nodup) (ha : a ∈ l) :
    a ∈ page key n l ↔ l.countP (fun b => key b ≤ key a) ≤ n := by
  rw [← not_mem_rest_iff ha fun b hb heq => List.inj_on_of_nodup_map hnodup hb ha heq]
  constructor
  · intro hpage hrest
    have hall : (page key n l ++ rest key n l).Nodup :=
      (perm_page_append_rest key n l).nodup_iff.2 hnodup.of_map
    exact (List.nodup_append.1 hall).2.2 a hpage a hrest rfl
  · exact fun hrest => (mem_page_or_rest ha).resolve_right hrest

end Page
