import Mathlib.Algebra.Order.Group.Defs
import Mathlib.Data.List.Induction

/-!
# Sliding windows

A limiter answers calls one after another (`answered`), each with its time. `recent` is what
a window that ends at some time still holds of a history. A sorted list loses what is too old
from the front (`dropWhile_eq_filter`), and an older window does not matter for a later
one (`recent_recent`). `countP_admitted_le` is the rule for a limit : if every admitted event
finds at most `n` events in the window that ends with it, at most `n` admitted events are
close to one another, whichever they are.
-/

namespace SlidingWindow

/-! ## Answers -/

section Answers

variable {σ α β : Type*} {step : σ → α → β × σ}

/-- The answers to the calls, each with its call. -/
def answered (step : σ → α → β × σ) : σ → List α → List (α × β)
  | _, [] => []
  | s, a :: as => (a, (step s a).1) :: answered step (step s a).2 as

/-- The state after the calls. -/
def after (step : σ → α → β × σ) (s : σ) (as : List α) : σ :=
  as.foldl (fun s a => (step s a).2) s

theorem after_concat (s : σ) (as : List α) (a : α) :
    after step s (as ++ [a]) = (step (after step s as) a).2 := by
  rw [after, List.foldl_append]
  rfl

theorem answered_concat (a : α) : ∀ (s : σ) (as : List α),
    answered step s (as ++ [a]) = answered step s as ++ [(a, (step (after step s as) a).1)]
  | _, [] => rfl
  | s, b :: as => by
    rw [List.cons_append, answered, answered_concat a _ as]
    rfl

@[simp] theorem map_fst_answered : ∀ (s : σ) (as : List α),
    (answered step s as).map Prod.fst = as
  | _, [] => rfl
  | s, a :: as => by rw [answered, List.map_cons, map_fst_answered]

/-- The first answers are those to the first calls. -/
theorem exists_of_prefix_answered {l : List (α × β)} :
    ∀ {s : σ} {as : List α}, l <+: answered step s as →
      ∃ as', as' <+: as ∧ l = answered step s as' := by
  induction l with
  | nil => exact fun _ => ⟨[], List.nil_prefix, rfl⟩
  | cons b l ih =>
    intro s as h
    cases as with
    | nil => simp [answered] at h
    | cons a as =>
      rw [answered] at h
      obtain ⟨rfl, hrest⟩ := List.cons_prefix_cons.1 h
      obtain ⟨as', hprefixed, rfl⟩ := ih hrest
      exact ⟨a :: as', List.cons_prefix_cons.2 ⟨rfl, hprefixed⟩, rfl⟩

end Answers

/-! ## Windows -/

/-- On a sorted list, dropping from the front is filtering. -/
theorem dropWhile_eq_filter {α : Type*} [LinearOrder α] {cutoff : α} :
    ∀ {times : List α}, times.Pairwise (· ≤ ·) →
      times.dropWhile (· < cutoff) = times.filter (cutoff ≤ ·)
  | [], _ => rfl
  | t :: times, h => by
    obtain ⟨hfirst, hrest⟩ := List.pairwise_cons.1 h
    by_cases ht : t < cutoff
    · rw [List.dropWhile_cons_of_pos (by simpa using ht),
        List.filter_cons_of_neg (by simpa using ht), dropWhile_eq_filter hrest]
    · have hall : ∀ t' ∈ t :: times, decide (cutoff ≤ t') = true := by
        intro t' ht'
        rw [decide_eq_true_eq]
        rcases List.mem_cons.1 ht' with rfl | ht'
        · exact not_lt.1 ht
        · exact (not_lt.1 ht).trans (hfirst t' ht')
      rw [List.dropWhile_cons_of_neg (by simpa using ht), List.filter_eq_self.2 hall]

variable {α : Type*} [AddCommGroup α] [LinearOrder α]

/-- What a window that ends at `now` holds. -/
def recent (window now : α) (times : List α) : List α :=
  times.filter (now - window < ·)

variable {window now later : α} {times : List α}

theorem recent_append (times' : List α) :
    recent window now (times ++ times') = recent window now times ++ recent window now times' :=
  List.filter_append _ _

theorem recent_sublist : (recent window now times).Sublist times :=
  List.filter_sublist

/-- If every admitted event finds at most `n` events in the window that ends with it, then at
most `n` admitted events are less than a window apart. -/
theorem countP_admitted_le {β : Type*} {time : β → α} {admitted : β → Bool} {n : ℕ} {I : Set α}
    [DecidablePred (· ∈ I)] (hI : ∀ a ∈ I, ∀ b ∈ I, a - window < b) :
    ∀ {l : List β}, (∀ past b, past ++ [b] <+: l → admitted b = true →
        (recent window (time b) ((past ++ [b]).map time)).length ≤ n) →
      l.countP (fun b => admitted b && decide (time b ∈ I)) ≤ n := by
  intro l
  induction l using List.reverseRecOn with
  | nil => exact fun _ => Nat.zero_le n
  | append_singleton l b ih =>
    intro h
    by_cases hb : admitted b = true ∧ time b ∈ I
    · -- the last event of them has all the others in its window
      refine le_trans ?_ (h l b List.prefix_rfl hb.1)
      rw [recent, ← List.countP_eq_length_filter, List.countP_map]
      refine List.countP_mono_left fun b' _ hb' => ?_
      rw [Bool.and_eq_true, decide_eq_true_eq] at hb'
      simpa using hI _ hb.2 _ hb'.2
    · have hlast : (admitted b && decide (time b ∈ I)) = false := by
        rw [Bool.and_eq_false_iff, decide_eq_false_iff_not]
        by_cases hadmitted : admitted b = true
        · exact Or.inr fun hmem => hb ⟨hadmitted, hmem⟩
        · exact Or.inl (Bool.eq_false_iff.2 hadmitted)
      rw [List.countP_append, List.countP_singleton, hlast]
      exact ih fun past b' hpast => h past b' (hpast.trans (List.prefix_append _ _))

variable [IsOrderedAddMonoid α]

/-- A later window takes nothing from before an earlier one. -/
theorem recent_recent (h : now ≤ later) :
    recent window later (recent window now times) = recent window later times := by
  rw [recent, recent, List.filter_filter]
  refine List.filter_congr fun t _ => ?_
  have hmono : later - window < t → now - window < t := fun ht =>
    (sub_le_sub_right h window).trans_lt ht
  simpa using hmono

/-- The newest event is in its own window. -/
theorem recent_concat_self (hwindow : 0 < window) :
    recent window now (times ++ [now]) = recent window now times ++ [now] := by
  have hself : now - window < now := sub_lt_self now hwindow
  rw [recent_append, show recent window now [now] = [now] by simp [recent, hself]]

end SlidingWindow
