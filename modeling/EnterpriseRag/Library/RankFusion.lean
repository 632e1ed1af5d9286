import Mathlib.Algebra.Order.BigOperators.Group.List
import Mathlib.Algebra.Order.Field.Basic
import Mathlib.Data.List.Sort

/-!
# Fusion of rankings

Each of several rankings gives an element a share that falls with its place, and the score of an
element is the sum of its shares. The score is at most what the first place of every ranking
gives, and just that for an element with all of them (`fused_eq_iff`); an element that no
ranking puts behind another scores no less (`fused_mono`). `Best` are the first elements by any
score; fewer of them have the first of the scores (`Best.map_prefix`).
-/

namespace RankFusion

section Fusion

variable {α K : Type*} [DecidableEq α] [Field K]

/-- What a ranking gives an element, by its place counted from 0. -/
def share (k : ℕ) (ranking : List α) (a : α) : K :=
  if a ∈ ranking then 1 / ((k + ranking.idxOf a : ℕ) : K) else 0

def fused (k : ℕ) (rankings : List (List α)) (a : α) : K :=
  (rankings.map fun ranking => share k ranking a).sum

variable {k : ℕ} {ranking : List α} {rankings : List (List α)} {a b : α}

theorem share_of_not_mem (h : a ∉ ranking) : (share k ranking a : K) = 0 :=
  if_neg h

theorem fused_cons : (fused k (ranking :: rankings) a : K) =
    share k ranking a + fused k rankings a := by
  rw [fused, List.map_cons, List.sum_cons, fused]

variable [LinearOrder K] [IsStrictOrderedRing K]

theorem share_nonneg : 0 ≤ (share k ranking a : K) := by
  unfold share
  split
  · exact div_nonneg zero_le_one (Nat.cast_nonneg _)
  · exact le_refl 0

theorem share_pos_iff (hk : 0 < k) : 0 < (share k ranking a : K) ↔ a ∈ ranking := by
  unfold share
  split
  · rename_i hmem
    have hpos : (0 : K) < (k + ranking.idxOf a : ℕ) := by exact_mod_cast Nat.add_pos_left hk _
    exact iff_of_true (one_div_pos.2 hpos) hmem
  · rename_i hmem
    exact iff_of_false (lt_irrefl 0) hmem

theorem share_le (hk : 0 < k) : (share k ranking a : K) ≤ 1 / (k : K) := by
  have hpos : (0 : K) < k := by exact_mod_cast hk
  unfold share
  split
  · refine one_div_le_one_div_of_le hpos ?_
    exact_mod_cast Nat.le_add_right _ _
  · exact (one_div_pos.2 hpos).le

/-- Only the first place gives as much as that. -/
theorem share_eq_iff (hk : 0 < k) :
    (share k ranking a : K) = 1 / (k : K) ↔ ranking.head? = some a := by
  unfold share
  split
  · rename_i hmem
    rw [one_div, one_div, inv_inj, Nat.cast_inj, Nat.add_eq_left]
    cases ranking with
    | nil => cases hmem
    | cons b ranking =>
      rw [List.head?_cons, Option.some.injEq]
      by_cases hb : b = a
      · subst hb
        simp
      · simp [List.idxOf_cons_ne _ hb, hb]
  · rename_i hmem
    have hpos : (0 : K) < 1 / k := one_div_pos.2 (by exact_mod_cast hk)
    exact iff_of_false hpos.ne fun h => hmem (List.mem_of_mem_head? h)

theorem share_mono (hk : 0 < k)
    (h : b ∈ ranking → a ∈ ranking ∧ ranking.idxOf a ≤ ranking.idxOf b) :
    (share k ranking b : K) ≤ share k ranking a := by
  by_cases hb : b ∈ ranking
  · obtain ⟨ha, hle⟩ := h hb
    have hpos : (0 : K) < (k + ranking.idxOf a : ℕ) := by exact_mod_cast Nat.add_pos_left hk _
    rw [share, share, if_pos ha, if_pos hb]
    refine one_div_le_one_div_of_le hpos ?_
    exact_mod_cast Nat.add_le_add_left hle k
  · rw [share_of_not_mem hb]
    exact share_nonneg

theorem fused_nonneg : 0 ≤ (fused k rankings a : K) :=
  List.sum_nonneg fun x hx => by
    obtain ⟨ranking, -, rfl⟩ := List.mem_map.1 hx
    exact share_nonneg

theorem fused_pos_of_mem (hk : 0 < k) (hranking : ranking ∈ rankings) (ha : a ∈ ranking) :
    0 < (fused k rankings a : K) := by
  induction rankings with
  | nil => cases hranking
  | cons first rankings ih =>
    rw [fused_cons]
    rcases List.mem_cons.1 hranking with rfl | hranking
    · exact add_pos_of_pos_of_nonneg ((share_pos_iff hk).2 ha) fused_nonneg
    · exact add_pos_of_nonneg_of_pos share_nonneg (ih hranking)

theorem fused_le (hk : 0 < k) : (fused k rankings a : K) ≤ rankings.length / k := by
  induction rankings with
  | nil => simp [fused]
  | cons ranking rankings ih =>
    rw [fused_cons, List.length_cons, Nat.cast_succ, add_comm (rankings.length : K), add_div]
    exact add_le_add (share_le hk) ih

/-- The greatest score is that of an element with the first place everywhere. -/
theorem fused_eq_iff (hk : 0 < k) : (fused k rankings a : K) = rankings.length / k ↔
    ∀ ranking ∈ rankings, ranking.head? = some a := by
  induction rankings with
  | nil => simp [fused]
  | cons ranking rankings ih =>
    rw [fused_cons, List.length_cons, Nat.cast_succ, add_comm (rankings.length : K), add_div,
      add_eq_add_iff_eq_and_eq (share_le hk) (fused_le hk), share_eq_iff hk, ih,
      List.forall_mem_cons]

theorem fused_mono (hk : 0 < k) (h : ∀ ranking ∈ rankings,
    b ∈ ranking → a ∈ ranking ∧ ranking.idxOf a ≤ ranking.idxOf b) :
    (fused k rankings b : K) ≤ fused k rankings a :=
  List.sum_le_sum fun ranking hranking => share_mono hk (h ranking hranking)

end Fusion

/-! ## The first elements by a score -/

section Best

variable {α β : Type*} [LinearOrder β]

/-- The results are `n` of the candidates, or all of them, and no others score more. -/
structure Best (score : α → β) (candidates : List α) (n : ℕ) (results : List α) : Prop where
  sorted : results.Pairwise fun a b => score b ≤ score a
  length : results.length = min n candidates.length
  others : ∃ rest, (results ++ rest).Perm candidates ∧
    ∀ b ∈ rest, ∀ a ∈ results, score b ≤ score a

variable {score : α → β} {candidates results results' : List α} {n m : ℕ}

theorem Best.subset (h : Best score candidates n results) : results ⊆ candidates := by
  obtain ⟨rest, hperm, -⟩ := h.others
  exact fun a ha => hperm.subset (List.mem_append_left rest ha)

/-- What keeps the order of the scores keeps the results. -/
theorem Best.monotone {γ : Type*} [LinearOrder γ] {f : β → γ} (hf : Monotone f)
    (h : Best score candidates n results) : Best (fun a => f (score a)) candidates n results := by
  obtain ⟨rest, hperm, hrest⟩ := h.others
  exact ⟨h.sorted.imp fun hle => hf hle, h.length, rest, hperm,
    fun b hb a ha => hf (hrest b hb a ha)⟩

local instance total_ge (score : α → β) : Std.Total fun a b : α => score b ≤ score a :=
  ⟨fun a b => le_total (score b) (score a)⟩

local instance trans_ge (score : α → β) : IsTrans α fun a b : α => score b ≤ score a :=
  ⟨fun _ _ _ hab hbc => hbc.trans hab⟩

/-- Sorting gives such results. -/
theorem best_take_insertionSort (score : α → β) (candidates : List α) (n : ℕ) :
    Best score candidates n
      ((candidates.insertionSort fun a b => score b ≤ score a).take n) := by
  have hsorted := List.pairwise_insertionSort (fun a b => score b ≤ score a) candidates
  refine ⟨hsorted.sublist (List.take_sublist _ _), ?_,
    (candidates.insertionSort fun a b => score b ≤ score a).drop n, ?_, ?_⟩
  · rw [List.length_take, List.length_insertionSort]
  · rw [List.take_append_drop]
    exact List.perm_insertionSort _ _
  · rw [← List.take_append_drop n (candidates.insertionSort _)] at hsorted
    exact fun b hb a ha => (List.pairwise_append.1 hsorted).2.2 a ha b hb

/-- The scores of the results are the first of all scores in order. -/
theorem Best.map_prefix_sorted (h : Best score candidates n results) :
    results.map score <+: (candidates.map score).insertionSort (· ≥ ·) := by
  obtain ⟨rest, hperm, hrest⟩ := h.others
  have hsorted : (results.map score ++ (rest.map score).insertionSort (· ≥ ·)).Pairwise
      (· ≥ ·) := by
    refine List.pairwise_append.2 ⟨List.pairwise_map.2 h.sorted,
      List.pairwise_insertionSort _ _, fun x hx y hy => ?_⟩
    obtain ⟨a, ha, rfl⟩ := List.mem_map.1 hx
    obtain ⟨b, hb, rfl⟩ := List.mem_map.1 ((List.perm_insertionSort _ _).subset hy)
    exact hrest b hb a ha
  have hall : (results.map score ++ (rest.map score).insertionSort (· ≥ ·)).Perm
      ((candidates.map score).insertionSort (· ≥ ·)) := by
    refine ((List.perm_insertionSort _ _).append_left _).trans ?_
    rw [← List.map_append]
    exact (hperm.map score).trans (List.perm_insertionSort _ _).symm
  rw [← hall.eq_of_pairwise' hsorted (List.pairwise_insertionSort _ _)]
  exact List.prefix_append _ _

/-- Fewer results have the first of the scores. -/
theorem Best.map_prefix (h : Best score candidates n results)
    (h' : Best score candidates m results') (hle : n ≤ m) :
    results.map score <+: results'.map score := by
  refine List.prefix_of_prefix_length_le h.map_prefix_sorted h'.map_prefix_sorted ?_
  rw [List.length_map, List.length_map, h.length, h'.length]
  exact min_le_min_right _ hle

end Best

end RankFusion
