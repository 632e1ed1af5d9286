import Mathlib.Data.List.Basic

/-!
# The first of each key

Of the elements of a list that share a key the first one is kept, in the order of the list.
`firstsFrom` goes on from a list of keys that were seen already, so the firsts of a list that
was appended to are those of the list and then those of what was appended
(`firstsFrom_append`).
-/

namespace List

variable {α κ : Type*} [DecidableEq κ] (key : α → κ)

/-- The elements whose key neither an element before them nor `seen` has. -/
def firstsFrom : List κ → List α → List α
  | _, [] => []
  | seen, a :: l =>
    if key a ∈ seen then firstsFrom seen l else a :: firstsFrom (seen ++ [key a]) l

/-- The elements whose key no element before them has. -/
def firsts (l : List α) : List α :=
  firstsFrom key [] l

variable {key}

theorem firstsFrom_append {l' : List α} : ∀ {seen : List κ} {l : List α},
    firstsFrom key seen (l ++ l') =
      firstsFrom key seen l ++ firstsFrom key (seen ++ (firstsFrom key seen l).map key) l'
  | seen, [] => by simp [firstsFrom]
  | seen, a :: l => by
    rw [cons_append, firstsFrom, firstsFrom]
    by_cases ha : key a ∈ seen
    · rw [if_pos ha, if_pos ha, firstsFrom_append]
    · rw [if_neg ha, if_neg ha, firstsFrom_append, map_cons, append_assoc, singleton_append,
        cons_append]

theorem firstsFrom_sublist : ∀ {seen : List κ} {l : List α}, firstsFrom key seen l <+ l
  | _, [] => Sublist.slnil
  | seen, a :: l => by
    rw [firstsFrom]
    split
    · exact firstsFrom_sublist.cons a
    · exact firstsFrom_sublist.cons_cons a

/-- The keys are new and different. -/
theorem nodup_firstsFrom : ∀ {seen : List κ} {l : List α},
    ((firstsFrom key seen l).map key).Nodup ∧ ∀ a ∈ firstsFrom key seen l, key a ∉ seen
  | _, [] => ⟨nodup_nil, by simp [firstsFrom]⟩
  | seen, a :: l => by
    rw [firstsFrom]
    split
    · exact nodup_firstsFrom
    · rename_i ha
      have ih : ((firstsFrom key (seen ++ [key a]) l).map key).Nodup ∧
          ∀ b ∈ firstsFrom key (seen ++ [key a]) l, key b ∉ seen ++ [key a] := nodup_firstsFrom
      obtain ⟨hnodup, hnew⟩ := ih
      constructor
      · rw [map_cons, nodup_cons]
        refine ⟨fun hmem => ?_, hnodup⟩
        obtain ⟨b, hb, hsame⟩ := mem_map.1 hmem
        exact hnew b hb (mem_append_right _ (mem_singleton.2 hsame))
      · rw [forall_mem_cons]
        exact ⟨ha, fun b hb hseen => hnew b hb (mem_append_left _ hseen)⟩

/-- Elements with new and different keys are all firsts. -/
theorem firstsFrom_eq_self : ∀ {seen : List κ} {l : List α}, (l.map key).Nodup →
    (∀ a ∈ l, key a ∉ seen) → firstsFrom key seen l = l
  | _, [], _, _ => rfl
  | seen, a :: l, hnodup, hnew => by
    rw [map_cons, nodup_cons] at hnodup
    rw [forall_mem_cons] at hnew
    have hrest : ∀ b ∈ l, key b ∉ seen ++ [key a] := fun b hb hmem => by
      rcases mem_append.1 hmem with hseen | hsame
      · exact hnew.2 b hb hseen
      · exact hnodup.1 (mem_singleton.1 hsame ▸ mem_map_of_mem hb)
    rw [firstsFrom, if_neg hnew.1, firstsFrom_eq_self hnodup.2 hrest]

/-- Every key that is not seen yet has its first. -/
theorem mem_map_firstsFrom {k : κ} : ∀ {seen : List κ} {l : List α},
    k ∈ (firstsFrom key seen l).map key ↔ k ∈ l.map key ∧ k ∉ seen
  | _, [] => by simp [firstsFrom]
  | seen, a :: l => by
    rw [firstsFrom]
    split
    · rename_i ha
      rw [mem_map_firstsFrom, map_cons, mem_cons]
      refine and_congr_left fun hk => ⟨Or.inr, ?_⟩
      rintro (rfl | h)
      · exact absurd ha hk
      · exact h
    · rename_i ha
      rw [map_cons, map_cons, mem_cons, mem_cons, mem_map_firstsFrom, mem_append, mem_singleton]
      by_cases hk : k = key a
      · simp [hk, ha]
      · simp [hk]

end List
