import Mathlib.Data.List.Infix
import Mathlib.Data.List.Nodup
import Mathlib.Data.List.Pairwise

/-!
# Words that can be told apart

Words whose heads are pairwise `Apart`, neither a beginning of the other, can be read off the
front of a text : what the text begins with settles the word. `optional_inj` is the rule for
a text in which a word may be left out, where what follows opens with a head of its own.
-/

namespace PrefixCode

variable {α : Type*} {l l' x y : List α} {heads : List (List α)}

/-- Neither list is a beginning of the other. -/
def Apart (l l' : List α) : Prop :=
  ¬l <+: l' ∧ ¬l' <+: l

instance [DecidableEq α] (l l' : List α) : Decidable (Apart l l') :=
  inferInstanceAs (Decidable (_ ∧ _))

instance : Std.Symm (Apart (α := α)) :=
  ⟨fun _ _ h => ⟨h.2, h.1⟩⟩

theorem Apart.append_ne (h : Apart l l') : l ++ x ≠ l' ++ y := by
  intro heq
  have hprefixed : l' <+: l ++ x := heq ▸ List.prefix_append l' y
  rcases List.prefix_or_prefix_of_prefix (List.prefix_append l x) hprefixed with hl | hl
  · exact h.1 hl
  · exact h.2 hl

/-- What a text begins with settles its head. -/
theorem head_eq (hheads : heads.Pairwise Apart) (hl : l ∈ heads) (hl' : l' ∈ heads)
    (h : l ++ x = l' ++ y) : l = l' := by
  by_contra hne
  exact (hheads.forall hl hl' hne).append_ne h

/-- The text begins with one of the heads. -/
def Opens (heads : List (List α)) (text : List α) : Prop :=
  ∃ l ∈ heads, l <+: text

theorem Opens.mono {heads' : List (List α)} {text : List α} (h : Opens heads text)
    (hsub : heads ⊆ heads') : Opens heads' text := by
  obtain ⟨l, hl, hprefixed⟩ := h
  exact ⟨l, hsub hl, hprefixed⟩

/-- A word, its head and the rest of it, or nothing. -/
def optionalText : Option (List α × List α) → List α
  | none => []
  | some word => word.1 ++ word.2

/-- A text with an optional word opens with its head, or as what follows. -/
theorem opens_optional {family : List (List α × List α)} {word : Option (List α × List α)}
    {rest : List α} (hword : ∀ w ∈ word, w ∈ family) (hrest : Opens heads rest) :
    Opens (family.map Prod.fst ++ heads) (optionalText word ++ rest) := by
  cases word with
  | none => exact hrest.mono (List.subset_append_right _ _)
  | some w =>
    refine ⟨w.1, List.mem_append_left _ (List.mem_map_of_mem (hword w rfl)), ?_⟩
    rw [optionalText, List.append_assoc]
    exact List.prefix_append _ _

/-- Texts with an optional word each : the words are the same, and so is what follows. -/
theorem optional_inj {family : List (List α × List α)}
    (hheads : (family.map Prod.fst ++ heads).Pairwise Apart) {word word' : Option (List α × List α)}
    {rest rest' : List α} (hword : ∀ w ∈ word, w ∈ family) (hword' : ∀ w ∈ word', w ∈ family)
    (hrest : Opens heads rest) (hrest' : Opens heads rest')
    (h : optionalText word ++ rest = optionalText word' ++ rest') : word = word' ∧ rest = rest' := by
  -- a word cannot begin what follows where the word is left out
  have hmixed : ∀ {w : List α × List α} {rest₁ rest₂ : List α}, w ∈ family → Opens heads rest₂ →
      w.1 ++ w.2 ++ rest₁ ≠ rest₂ := by
    rintro w rest₁ rest₂ hw ⟨l, hl, ⟨tail, rfl⟩⟩ heq
    rw [List.append_assoc] at heq
    have hapart := (List.pairwise_append.1 hheads).2.2 w.1 (List.mem_map_of_mem hw) l hl
    exact hapart.append_ne heq
  match word, word' with
  | none, none => exact ⟨rfl, h⟩
  | some w, none => exact absurd h (hmixed (hword w rfl) hrest')
  | none, some w' => exact absurd h.symm (hmixed (hword' w' rfl) hrest)
  | some w, some w' =>
    have hfamily := (List.pairwise_append.1 hheads).1
    simp only [optionalText, List.append_assoc] at h
    have hhead : w.1 = w'.1 := head_eq hfamily (List.mem_map_of_mem (hword w rfl))
      (List.mem_map_of_mem (hword' w' rfl)) h
    have hnodup : (family.map Prod.fst).Nodup := by
      refine hfamily.imp fun {a b} hapart heq => ?_
      subst heq
      exact hapart.1 List.prefix_rfl
    obtain rfl : w = w' :=
      List.inj_on_of_nodup_map hnodup (hword w rfl) (hword' w' rfl) hhead
    exact ⟨rfl, List.append_cancel_left (List.append_cancel_left h)⟩

end PrefixCode
