import Mathlib.Data.List.Nodup

/-!
# The last match of a list

A dictionary built from a list of pairs keeps, for every key, the value of the last pair
with that key. `findLast` is that lookup, `IsLast` says what it finds, and
`findLast_of_unique` finds an element whose key no other has.
-/

namespace LastMatch

variable {α κ : Type*}

/-- The last element where `p` holds. -/
def findLast (p : α → Bool) (l : List α) : Option α :=
  l.reverse.find? p

/-- `x` is the last element of `l` where `p` holds. -/
def IsLast (p : α → Prop) (x : α) (l : List α) : Prop :=
  ∃ pre post, l = pre ++ x :: post ∧ p x ∧ ∀ y ∈ post, ¬p y

theorem IsLast.mem {p : α → Prop} {x : α} {l : List α} (h : IsLast p x l) : x ∈ l := by
  obtain ⟨pre, post, rfl, -⟩ := h
  simp

theorem IsLast.holds {p : α → Prop} {x : α} {l : List α} (h : IsLast p x l) : p x := by
  obtain ⟨pre, post, -, hx, -⟩ := h
  exact hx

theorem findLast_eq_some_iff {p : α → Prop} [DecidablePred p] {l : List α} {x : α} :
    findLast (fun y => decide (p y)) l = some x ↔ IsLast p x l := by
  rw [findLast, List.find?_eq_some_iff_append]
  constructor
  · rintro ⟨hx, as, bs, hl, has⟩
    refine ⟨bs.reverse, as.reverse, ?_, by simpa using hx, fun y hy => ?_⟩
    · have h := congrArg List.reverse hl
      simpa using h
    · simpa using has y (List.mem_reverse.1 hy)
  · rintro ⟨pre, post, rfl, hx, hpost⟩
    refine ⟨by simpa using hx, post.reverse, pre.reverse, by simp, fun y hy => ?_⟩
    simpa using hpost y (List.mem_reverse.1 hy)

theorem findLast_eq_none_iff {p : α → Prop} [DecidablePred p] {l : List α} :
    findLast (fun y => decide (p y)) l = none ↔ ∀ x ∈ l, ¬p x := by
  simp [findLast]

theorem findLast_concat {p : α → Bool} {l : List α} {x : α} :
    findLast p (l ++ [x]) = if p x then some x else findLast p l := by
  rw [findLast, List.reverse_append, List.reverse_singleton, List.singleton_append,
    List.find?_cons]
  cases p x <;> rfl

/-- If anything matches, something is the last match. -/
theorem exists_isLast {p : α → Prop} {l : List α} {x : α} (hx : x ∈ l) (hp : p x) :
    ∃ y, IsLast p y l := by
  classical
  rcases h : findLast (fun y => decide (p y)) l with _ | y
  · exact absurd hp (findLast_eq_none_iff.1 h x hx)
  · exact ⟨y, findLast_eq_some_iff.1 h⟩

/-- Where no other element has the key of `x`, the last match for that key is `x`. -/
theorem IsLast.eq_of_nodup {key : α → κ} {l : List α} (hl : (l.map key).Nodup) {x y : α} {k : κ}
    (hy : IsLast (fun z => key z = k) y l) (hx : x ∈ l) (hk : key x = k) : y = x :=
  List.inj_on_of_nodup_map hl hy.mem hx (hy.holds.trans hk.symm)

end LastMatch
