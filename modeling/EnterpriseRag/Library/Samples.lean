import Mathlib.Algebra.BigOperators.Group.List.Basic
import Mathlib.Data.List.DropRight
import Mathlib.Data.List.Sort
import Mathlib.Order.Basic

/-!
# Rolling samples

A window keeps the last samples that are pushed, and a percentile is read off the sorted
samples at the rank that the fraction gives. `foldl_window` and `foldl_total` say what a window
and a total are after any sequence of records, each of which may or may not concern them.
`countP_percentile` says what share of the samples a percentile has below and at most it.
-/

namespace Samples

variable {α σ ρ : Type*}

/-! ## Windows and totals -/

/-- The window of the last `size` samples, after one more. -/
def push (size : ℕ) (samples : List α) (x : α) : List α :=
  (samples ++ [x]).rtake size

theorem length_rtake (size : ℕ) (l : List α) : (l.rtake size).length = min size l.length := by
  rw [List.rtake, List.length_drop]
  omega

/-- A window of a window, with one more sample. -/
theorem push_rtake (size : ℕ) (l : List α) (x : α) :
    push size (l.rtake size) x = (l ++ [x]).rtake size := by
  have hlength := length_rtake size l
  rcases Nat.eq_zero_or_pos size with rfl | hpos
  · simp [push]
  unfold push
  unfold List.rtake at hlength ⊢
  rw [List.length_append, List.length_append, List.length_singleton, hlength,
    List.drop_append_of_le_length (by omega), List.drop_append_of_le_length (by omega),
    List.drop_drop]
  congr 2
  omega

/-- A window that some records push a sample to holds the last samples of those records. -/
theorem foldl_window {step : σ → ρ → σ} {window : σ → List α} {sample : ρ → Option α} {size : ℕ}
    {start : σ} (hstart : window start = [])
    (hstep : ∀ s r, window (step s r) = (sample r).elim (window s) (push size (window s)))
    (records : List ρ) :
    window (records.foldl step start) = (records.filterMap sample).rtake size := by
  induction records using List.reverseRecOn with
  | nil => rw [List.foldl_nil, hstart, List.filterMap_nil, List.rtake_nil]
  | append_singleton records r ih =>
    rw [List.foldl_append, List.foldl_cons, List.foldl_nil, hstep, ih, List.filterMap_append]
    cases hsample : sample r with
    | none => simp [hsample]
    | some x =>
      rw [Option.elim_some, push_rtake]
      simp [hsample]

/-- A total that every record adds something to is the sum of what they add. -/
theorem foldl_total {M : Type*} [AddMonoid M] {step : σ → ρ → σ} {total : σ → M}
    {amount : ρ → M} {start : σ} (hstart : total start = 0)
    (hstep : ∀ s r, total (step s r) = total s + amount r) (records : List ρ) :
    total (records.foldl step start) = (records.map amount).sum := by
  induction records using List.reverseRecOn with
  | nil => rw [List.foldl_nil, hstart, List.map_nil, List.sum_nil]
  | append_singleton records r ih =>
    rw [List.foldl_append, List.foldl_cons, List.foldl_nil, hstep, ih, List.map_append,
      List.sum_append, List.map_singleton, List.sum_singleton]

/-- A part of the state that only the kept records reach is the state of those records alone. -/
theorem foldl_part {step : σ → ρ → σ} {part : σ → σ} {keep : ρ → Bool} {start : σ}
    (hstart : part start = start)
    (hstep : ∀ s r, part (step s r) = if keep r then step (part s) r else part s)
    (records : List ρ) :
    part (records.foldl step start) = (records.filter keep).foldl step start := by
  induction records using List.reverseRecOn with
  | nil => exact hstart
  | append_singleton records r ih =>
    rw [List.foldl_append, List.foldl_cons, List.foldl_nil, hstep, ih, List.filter_append,
      List.filter_singleton, List.foldl_append]
    cases keep r <;> rfl

/-! ## Percentiles -/

/-- The place of a percentile among `length` sorted samples. -/
def rank (length num den : ℕ) : ℕ :=
  min (length - 1) (length * num / den)

def percentile (sorted : List α) (num den : ℕ) : Option α :=
  sorted[rank sorted.length num den]?

theorem rank_lt {length num den : ℕ} (h : 0 < length) : rank length num den < length := by
  have hle : rank length num den ≤ length - 1 := min_le_left _ _
  omega

/-- There is a percentile just when there is a sample. -/
theorem percentile_eq_none_iff {sorted : List α} {num den : ℕ} :
    percentile sorted num den = none ↔ sorted = [] := by
  rw [percentile, List.getElem?_eq_none_iff]
  constructor
  · intro h
    by_contra hne
    have hlt : rank sorted.length num den < sorted.length := rank_lt (List.length_pos_iff.2 hne)
    omega
  · rintro rfl
    exact Nat.zero_le _

section Order

variable [LinearOrder α] {sorted : List α} {num num' den : ℕ} {v v' : α}

theorem percentile_mono (hsorted : sorted.Pairwise (· ≤ ·)) (hnum : num ≤ num')
    (h : percentile sorted num den = some v) (h' : percentile sorted num' den = some v') :
    v ≤ v' := by
  obtain ⟨hi, rfl⟩ := List.getElem?_eq_some_iff.1 h
  obtain ⟨hj, rfl⟩ := List.getElem?_eq_some_iff.1 h'
  have hle : rank sorted.length num den ≤ rank sorted.length num' den := by
    have hdiv : sorted.length * num / den ≤ sorted.length * num' / den :=
      Nat.div_le_div_right (Nat.mul_le_mul_left _ hnum)
    rw [rank, rank]
    omega
  rcases hle.eq_or_lt with heq | hlt
  · exact le_of_eq (getElem_congr_idx heq)
  · exact List.pairwise_iff_getElem.1 hsorted _ _ hi hj hlt

/-- At most the fraction of the samples is below the percentile, and more than the fraction, or
every sample, is at most it. -/
theorem countP_percentile (hsorted : sorted.Pairwise (· ≤ ·))
    (h : percentile sorted num den = some v) :
    sorted.countP (· < v) ≤ sorted.length * num / den ∧
      min sorted.length (sorted.length * num / den + 1) ≤ sorted.countP (· ≤ v) := by
  obtain ⟨hi, rfl⟩ := List.getElem?_eq_some_iff.1 h
  have hrank : rank sorted.length num den ≤ sorted.length * num / den := min_le_right _ _
  have hmin : min sorted.length (sorted.length * num / den + 1) ≤
      rank sorted.length num den + 1 := by
    rw [rank]
    omega
  generalize rank sorted.length num den = i at hi hrank hmin ⊢
  constructor
  · -- what stands from the rank on is not below it
    have hcount : sorted.countP (· < sorted[i]) =
        (sorted.take i).countP (· < sorted[i]) + (sorted.drop i).countP (· < sorted[i]) := by
      rw [← List.countP_append, List.take_append_drop]
    have hdrop : (sorted.drop i).countP (· < sorted[i]) = 0 := by
      rw [List.countP_eq_zero]
      intro x hx
      obtain ⟨j, hj, rfl⟩ := List.getElem_of_mem hx
      rw [List.getElem_drop, decide_eq_true_eq, not_lt]
      rcases Nat.eq_zero_or_pos j with rfl | hpos
      · exact le_of_eq (getElem_congr_idx (Nat.add_zero i).symm)
      · exact List.pairwise_iff_getElem.1 hsorted _ _ hi _ (by omega)
    rw [hcount, hdrop, Nat.add_zero]
    refine List.countP_le_length.trans ?_
    rw [List.length_take]
    omega
  · -- what stands up to the rank is at most it
    have htake : (sorted.take (i + 1)).countP (· ≤ sorted[i]) = i + 1 := by
      rw [List.countP_eq_length.2, List.length_take]
      · omega
      intro x hx
      obtain ⟨j, hj, rfl⟩ := List.getElem_of_mem hx
      rw [List.length_take] at hj
      rw [List.getElem_take, decide_eq_true_eq]
      rcases (Nat.le_of_lt_succ (lt_of_lt_of_le hj (min_le_left _ _))).eq_or_lt with rfl | hlt
      · exact le_rfl
      · exact List.pairwise_iff_getElem.1 hsorted _ _ (by omega) hi hlt
    refine hmin.trans ?_
    rw [← htake]
    exact List.Sublist.countP_le (List.take_sublist _ _)

end Order

end Samples
