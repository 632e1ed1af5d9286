import Mathlib.Data.List.Basic

/-!
# Dictionaries as lists of pairs

A dictionary is the list of its entries in the order of their insertion, and `List.lookup` reads
it. `set` and `pop` are the updates, for values of any kind, so that what is computed of a value
can be kept under its key (`map_set`, `map_pop`).
-/

set_option linter.unusedSectionVars false

namespace Dict

variable {κ α β : Type*} [BEq κ] [LawfulBEq κ] [DecidableEq κ]

def keys (entries : List (κ × α)) : List κ :=
  entries.map (·.1)

/-- `entries[key] = value`. -/
def set (entries : List (κ × α)) (key : κ) (value : α) : List (κ × α) :=
  if key ∈ keys entries then
    entries.map fun entry => if entry.1 = key then (key, value) else entry
  else entries ++ [(key, value)]

/-- `entries.pop(key, None)`. -/
def pop (entries : List (κ × α)) (key : κ) : List (κ × α) :=
  entries.filter (·.1 ≠ key)

variable {entries : List (κ × α)} {key other : κ} {value : α}

/-! ## Reading -/

theorem lookup_cons_eq {first : κ} :
    List.lookup key ((first, value) :: entries) =
      if key = first then some value else entries.lookup key := by
  rw [List.lookup_cons]
  by_cases h : key = first
  · rw [if_pos h, h, beq_self_eq_true]
  · rw [if_neg h, beq_eq_false_iff_ne.2 h]

theorem lookup_eq_none_iff : entries.lookup key = none ↔ key ∉ keys entries := by
  induction entries with
  | nil => simp [keys]
  | cons entry entries ih =>
    rw [lookup_cons_eq, keys, List.map_cons, List.mem_cons, not_or]
    split
    · rename_i h
      simp [h]
    · rename_i h
      rw [ih, keys]
      simp [h]

theorem lookup_isSome_iff : (entries.lookup key).isSome = true ↔ key ∈ keys entries := by
  rw [← not_iff_not, ← lookup_eq_none_iff, Option.not_isSome_iff_eq_none]

theorem mem_of_lookup (h : entries.lookup key = some value) : (key, value) ∈ entries := by
  induction entries with
  | nil => exact nomatch h
  | cons entry entries ih =>
    rw [lookup_cons_eq] at h
    split at h
    · rename_i hkey
      obtain rfl := Option.some.inj h
      exact hkey ▸ List.mem_cons_self
    · exact List.mem_cons_of_mem _ (ih h)

theorem lookup_append {entries' : List (κ × α)} :
    (entries ++ entries').lookup key = (entries.lookup key).or (entries'.lookup key) := by
  induction entries with
  | nil => rfl
  | cons entry entries ih =>
    rw [List.cons_append, lookup_cons_eq, lookup_cons_eq, ih]
    split <;> rfl

/-! ## Updates -/

theorem lookup_map_set :
    (entries.map fun entry => if entry.1 = key then (key, value) else entry).lookup other =
      if other = key then (entries.lookup key).map (fun _ => value)
      else entries.lookup other := by
  induction entries with
  | nil => simp
  | cons entry entries ih =>
    obtain ⟨first, held⟩ := entry
    rw [List.map_cons, lookup_cons_eq, lookup_cons_eq]
    by_cases hfirst : first = key
    · subst hfirst
      rw [if_pos rfl, lookup_cons_eq, ih]
      by_cases hother : other = first
      · simp [hother]
      · simp [hother]
    · rw [if_neg hfirst, lookup_cons_eq, ih]
      by_cases hother : other = key
      · subst hother
        rw [if_neg (Ne.symm hfirst), if_pos rfl, if_pos rfl, if_neg (Ne.symm hfirst)]
      · rw [if_neg hother, if_neg hother]

theorem lookup_set :
    (set entries key value).lookup other =
      if other = key then some value else entries.lookup other := by
  rw [set]
  by_cases hmem : key ∈ keys entries
  · rw [if_pos hmem, lookup_map_set]
    obtain ⟨held, hheld⟩ := Option.isSome_iff_exists.1 (lookup_isSome_iff.2 hmem)
    rw [hheld]
    rfl
  · rw [if_neg hmem, lookup_append, lookup_cons_eq]
    by_cases hother : other = key
    · rw [hother, lookup_eq_none_iff.2 hmem, if_pos rfl, if_pos rfl]
      rfl
    · rw [if_neg hother, if_neg hother]
      exact Option.or_none

theorem lookup_pop :
    (pop entries key).lookup other = if other = key then none else entries.lookup other := by
  induction entries with
  | nil => simp [pop]
  | cons entry entries ih =>
    rw [pop] at ih ⊢
    by_cases hentry : entry.1 = key
    · rw [List.filter_cons_of_neg (by simpa using hentry), ih, lookup_cons_eq, hentry]
      split <;> rfl
    · rw [List.filter_cons_of_pos (by simpa using hentry), lookup_cons_eq, lookup_cons_eq, ih]
      by_cases hother : other = key
      · rw [if_pos hother, if_pos hother, hother, if_neg (Ne.symm hentry)]
      · rw [if_neg hother, if_neg hother]

theorem mem_set {entry : κ × α} (h : entry ∈ set entries key value) :
    entry = (key, value) ∨ entry ∈ entries ∧ entry.1 ≠ key := by
  rw [set] at h
  split at h
  · obtain ⟨entry', hentry', rfl⟩ := List.mem_map.1 h
    split
    · exact Or.inl rfl
    · rename_i hother
      exact Or.inr ⟨hentry', hother⟩
  · rename_i hmem
    rcases List.mem_append.1 h with h | h
    · exact Or.inr ⟨h, fun hsame => hmem (hsame ▸ List.mem_map_of_mem h)⟩
    · exact Or.inl (List.mem_singleton.1 h)

theorem mem_set_of_ne {entry : κ × α} (h : entry ∈ entries) (hkey : entry.1 ≠ key) :
    entry ∈ set entries key value := by
  rw [set]
  split
  · exact List.mem_map.2 ⟨entry, h, if_neg hkey⟩
  · exact List.mem_append_left _ h

theorem mem_pop {entry : κ × α} : entry ∈ pop entries key ↔ entry ∈ entries ∧ entry.1 ≠ key := by
  rw [pop, List.mem_filter, decide_eq_true_eq]

/-! ## Values that are computed -/

variable {f : α → β}

theorem keys_map : keys (entries.map fun entry => (entry.1, f entry.2)) = keys entries := by
  rw [keys, List.map_map]
  rfl

theorem map_set : (set entries key value).map (fun entry => (entry.1, f entry.2)) =
    set (entries.map fun entry => (entry.1, f entry.2)) key (f value) := by
  rw [set, set, keys_map]
  split
  · rw [List.map_map, List.map_map]
    refine List.map_congr_left fun entry _ => ?_
    simp only [Function.comp_apply]
    split <;> rfl
  · rw [List.map_append]
    rfl

theorem map_pop : (pop entries key).map (fun entry => (entry.1, f entry.2)) =
    pop (entries.map fun entry => (entry.1, f entry.2)) key := by
  rw [pop, pop, List.filter_map]
  rfl

end Dict
