import Mathlib.Data.List.Nodup
import Mathlib.Data.List.Count

/-!
# Tables with a primary key

A table is a list of rows no two of which share a key. `insert` refuses a key that is
taken, the way a primary key constraint does, and `updateWhere` is
`UPDATE … SET … WHERE` for an assignment that leaves the key alone. Both keep the keys
distinct by construction, so a row found under a key (`find`) is the only one there.
-/

/-- Rows with distinct keys. -/
structure Table {ρ κ : Type*} (key : ρ → κ) where
  rows : List ρ
  nodup : (rows.map key).Nodup

namespace Table

variable {ρ κ : Type*} {key : ρ → κ}

/-- The table with no row. -/
def empty : Table key :=
  ⟨[], List.nodup_nil⟩

variable [DecidableEq κ]

/-- The row stored under `k`. -/
def find (t : Table key) (k : κ) : Option ρ :=
  t.rows.find? fun r => key r = k

/-- Append a row, unless its key is taken. -/
def insert (t : Table key) (r : ρ) : Option (Table key) :=
  if h : key r ∈ t.rows.map key then none
  else some ⟨t.rows ++ [r], by
    rw [List.map_append, List.nodup_append]
    refine ⟨t.nodup, List.nodup_singleton _, ?_⟩
    rintro _ ha _ hb rfl
    rw [List.map_singleton, List.mem_singleton] at hb
    exact h (hb ▸ ha)⟩

omit [DecidableEq κ] in
theorem map_key_updateWhere (rows : List ρ) (p : ρ → Bool) {f : ρ → ρ}
    (hf : ∀ r, key (f r) = key r) :
    (rows.map fun r => if p r then f r else r).map key = rows.map key := by
  rw [List.map_map]
  refine List.map_congr_left fun r _ => ?_
  by_cases h : p r <;> simp [h, hf]

/-- Assign `f` to the rows where `p` holds. -/
def updateWhere (t : Table key) (p : ρ → Bool) (f : ρ → ρ) (hf : ∀ r, key (f r) = key r) :
    Table key :=
  ⟨t.rows.map fun r => if p r then f r else r, by
    rw [map_key_updateWhere t.rows p hf]
    exact t.nodup⟩

/-- How many rows an update touches. -/
def rowcount (t : Table key) (p : ρ → Bool) : ℕ :=
  t.rows.countP p

@[simp] theorem find_empty (k : κ) : (empty : Table key).find k = none :=
  rfl

theorem key_of_find {t : Table key} {k : κ} {r : ρ} (h : t.find k = some r) : key r = k := by
  simpa using List.find?_some h

theorem mem_of_find {t : Table key} {k : κ} {r : ρ} (h : t.find k = some r) : r ∈ t.rows :=
  List.mem_of_find?_eq_some h

/-- With distinct keys, every row is the one found under its key. -/
theorem find_of_mem {t : Table key} {r : ρ} (h : r ∈ t.rows) : t.find (key r) = some r := by
  obtain ⟨q, hq⟩ : ∃ q, t.find (key r) = some q := by
    refine Option.isSome_iff_exists.1 ?_
    rw [find, List.find?_isSome]
    exact ⟨r, h, by simp⟩
  rw [hq, List.inj_on_of_nodup_map t.nodup (mem_of_find hq) h (key_of_find hq)]

@[simp] theorem find_updateWhere (t : Table key) (p : ρ → Bool) {f : ρ → ρ}
    (hf : ∀ r, key (f r) = key r) (k : κ) :
    (t.updateWhere p f hf).find k = (t.find k).map fun r => if p r then f r else r := by
  rw [find, updateWhere, List.find?_map, find]
  have hkey : (fun r => decide (key r = k)) ∘ (fun r => if p r then f r else r) =
      fun r => decide (key r = k) := by
    funext r
    by_cases h : p r <;> simp [h, hf]
  rw [hkey]

omit [DecidableEq κ] in
theorem mem_updateWhere {t : Table key} {p : ρ → Bool} {f : ρ → ρ}
    {hf : ∀ r, key (f r) = key r} {q : ρ} :
    q ∈ (t.updateWhere p f hf).rows ↔ ∃ r ∈ t.rows, (if p r then f r else r) = q :=
  List.mem_map

omit [DecidableEq κ] in
/-- An update of rows that are not selected, before or after. -/
theorem filter_updateWhere {t : Table key} {p q : ρ → Bool} {f : ρ → ρ}
    (hf : ∀ r, key (f r) = key r)
    (h : ∀ r ∈ t.rows, p r = true → q r = false ∧ q (f r) = false) :
    (t.updateWhere p f hf).rows.filter q = t.rows.filter q := by
  show List.filter q (t.rows.map fun r => if p r then f r else r) = _
  generalize t.rows = rows at h ⊢
  induction rows with
  | nil => rfl
  | cons r rows ih =>
    obtain ⟨hr, hrows⟩ := List.forall_mem_cons.1 h
    rw [List.map_cons, List.filter_cons, List.filter_cons, ih hrows]
    by_cases hp : p r = true
    · rw [if_pos hp, (hr hp).1, (hr hp).2]
      rfl
    · rw [if_neg hp]

theorem find_updateWhere_of_some {t : Table key} {p : ρ → Bool} {f : ρ → ρ}
    {hf : ∀ r, key (f r) = key r} {k : κ} {r : ρ} (h : t.find k = some r) :
    (t.updateWhere p f hf).find k = some (if p r then f r else r) := by
  rw [find_updateWhere, h, Option.map_some]

theorem find_insert {t t' : Table key} {r : ρ} (h : t.insert r = some t') (k : κ) :
    t'.find k = if key r = k then some r else t.find k := by
  unfold insert at h
  split at h
  · simp at h
  · rename_i hfresh
    obtain rfl := Option.some.inj h
    simp only [find, List.find?_append, List.find?_singleton]
    by_cases hk : key r = k
    · have hnone : t.rows.find? (fun r => key r = k) = none := by
        rw [List.find?_eq_none]
        intro q hq hqk
        refine hfresh (List.mem_map.2 ⟨q, hq, ?_⟩)
        rw [hk]
        simpa using hqk
      simp [hnone, hk]
    · simp [hk]

theorem rows_insert {t t' : Table key} {r : ρ} (h : t.insert r = some t') :
    t'.rows = t.rows ++ [r] := by
  unfold insert at h
  split at h
  · simp at h
  · obtain rfl := Option.some.inj h
    rfl

theorem mem_insert {t t' : Table key} {r q : ρ} (h : t.insert r = some t') :
    q ∈ t'.rows ↔ q ∈ t.rows ∨ q = r := by
  unfold insert at h
  split at h
  · simp at h
  · obtain rfl := Option.some.inj h
    simp

/-- A key an insert accepted was free. -/
theorem find_of_insert {t t' : Table key} {r : ρ} (h : t.insert r = some t') :
    t.find (key r) = none := by
  unfold insert at h
  split at h
  · simp at h
  · rename_i hfresh
    rw [find, List.find?_eq_none]
    intro q hq hqk
    exact hfresh (List.mem_map.2 ⟨q, hq, by simpa using hqk⟩)

/-- What is stored under a key that was taken survives an insert. -/
theorem find_insert_of_some {t t' : Table key} {r q : ρ} {k : κ} (h : t.insert r = some t')
    (hq : t.find k = some q) : t'.find k = some q := by
  rw [find_insert h, if_neg, hq]
  rintro rfl
  rw [find_of_insert h] at hq
  simp at hq

end Table
