import EnterpriseRag.Guardrails.RoundTrip
import Mathlib.Data.List.ReduceOption

/-!
# What a redaction leaves in clear

A value of the input is covered when no character of it is in clear after the last pass, but
for a separator at its end. `tokenize_covers_iff` says when all are : a value is torn when a
pass takes some of its characters only, and what it leaves of it a later pass has to take.
-/

namespace EnterpriseRag

open Regex (Piece)

/-- A match of the kind that counts starts at `i`. -/
def IsValue (isWord : Char → Bool) (text : List Char) (kind : SensitiveKind) (i : ℕ)
    (u : List Char) : Prop :=
  ∃ front back, (kind.pattern isWord).pieces text = front ++ .hit u :: back ∧
    kind.accepts u = true ∧ (front.flatMap Piece.text).length = i

/-- The length without a separator at the end. -/
def bodyLength (u : List Char) : ℕ :=
  if u.getLast?.any isSeparator then u.length - 1 else u.length

/-- Character `i` of the source is in clear after the passes. -/
def Clear (isWord : Char → Bool) (tokens : TokenSource) (text : List Char)
    (done : List SensitiveKind) (i : ℕ) : Prop :=
  some i ∈ originsAfter isWord tokens done text

/-- Of the pieces a match that counts has a character with the origin `i`. -/
def TakenIn (kind : SensitiveKind) (pieces : List Piece) (origins : List (Option ℕ)) (i : ℕ) :
    Prop :=
  ∃ front u back, pieces = front ++ .hit u :: back ∧ kind.accepts u = true ∧
    some i ∈ (origins.drop (front.flatMap Piece.text).length).take u.length

/-- The pass after those done takes character `i` of the source. -/
def Takes (isWord : Char → Bool) (tokens : TokenSource) (text : List Char)
    (done : List SensitiveKind) (pass : SensitiveKind) (i : ℕ) : Prop :=
  TakenIn pass ((pass.pattern isWord).pieces (tokenizeKinds isWord tokens done (text, [])).1)
    (originsAfter isWord tokens done text) i

variable {isWord : Char → Bool} {tokens : TokenSource} {kind : SensitiveKind} {text : List Char}

/-! ## One pass -/

theorem takenIn_plain {c : Char} {pieces : List Piece} {origins : List (Option ℕ)} {i : ℕ} :
    TakenIn kind (.plain c :: pieces) origins i ↔ TakenIn kind pieces (origins.drop 1) i := by
  constructor
  · rintro ⟨front, u, back, hsplit, haccepts, hmem⟩
    cases front with
    | nil => exact nomatch (List.cons.inj hsplit).1
    | cons piece front =>
      obtain ⟨rfl, rfl⟩ := List.cons.inj hsplit
      refine ⟨front, u, back, rfl, haccepts, ?_⟩
      rw [List.drop_drop, Nat.add_comm]
      exact hmem
  · rintro ⟨front, u, back, rfl, haccepts, hmem⟩
    rw [List.drop_drop, Nat.add_comm] at hmem
    exact ⟨.plain c :: front, u, back, rfl, haccepts, hmem⟩

theorem takenIn_hit {u : List Char} {pieces : List Piece} {origins : List (Option ℕ)} {i : ℕ} :
    TakenIn kind (.hit u :: pieces) origins i ↔
      kind.accepts u = true ∧ some i ∈ origins.take u.length ∨
        TakenIn kind pieces (origins.drop u.length) i := by
  constructor
  · rintro ⟨front, v, back, hsplit, haccepts, hmem⟩
    cases front with
    | nil =>
      obtain ⟨hu, rfl⟩ := List.cons.inj hsplit
      obtain rfl := Piece.hit.inj hu
      exact Or.inl ⟨haccepts, hmem⟩
    | cons piece front =>
      obtain ⟨rfl, rfl⟩ := List.cons.inj hsplit
      refine Or.inr ⟨front, v, back, rfl, haccepts, ?_⟩
      rw [List.drop_drop, ← List.length_append]
      exact hmem
  · rintro (⟨haccepts, hmem⟩ | ⟨front, v, back, rfl, haccepts, hmem⟩)
    · exact ⟨[], u, pieces, rfl, haccepts, hmem⟩
    · rw [List.drop_drop, ← List.length_append] at hmem
      exact ⟨.hit u :: front, v, back, rfl, haccepts, hmem⟩

/-- No character of the source stands twice in the text. -/
def Distinct (origins : List (Option ℕ)) : Prop :=
  origins.reduceOption.Nodup

theorem Distinct.drop {origins : List (Option ℕ)} (h : Distinct origins) (n : ℕ) :
    Distinct (origins.drop n) :=
  h.sublist ((List.drop_sublist n origins).filterMap id)

theorem Distinct.not_mem_drop {origins : List (Option ℕ)} (h : Distinct origins) {n i : ℕ}
    (hi : some i ∈ origins.take n) : some i ∉ origins.drop n := by
  rw [Distinct, ← List.take_append_drop n origins, List.reduceOption_append] at h
  rw [← List.reduceOption_mem_iff] at hi ⊢
  exact fun hdrop => (List.nodup_append.1 h).2.2 i hi i hdrop rfl

theorem mem_take_or_drop {α : Type*} {a : α} (n : ℕ) {l : List α} :
    a ∈ l ↔ a ∈ l.take n ∨ a ∈ l.drop n := by
  rw [← List.mem_append, List.take_append_drop]

/-- A pass leaves what it does not take. -/
theorem mem_traceHits_iff : ∀ {pieces : List Piece} {origins : List (Option ℕ)} {n i : ℕ},
    Distinct origins → origins.length = (pieces.flatMap Piece.text).length →
      (some i ∈ traceHits tokens kind pieces origins n ↔
        some i ∈ origins ∧ ¬TakenIn kind pieces origins i)
  | [], origins, n, i, _, hlength => by
    obtain rfl := List.length_eq_zero_iff.1 hlength
    simp [traceHits]
  | .plain c :: pieces, origins, n, i, hdistinct, hlength => by
    have hrest : (origins.drop 1).length = (pieces.flatMap Piece.text).length := by
      rw [List.length_drop, hlength, List.flatMap_cons, List.length_append]
      exact Nat.add_sub_cancel_left _ _
    have ih := mem_traceHits_iff (n := n) (i := i) (hdistinct.drop 1) hrest
    rw [traceHits, List.mem_append, ih, takenIn_plain, mem_take_or_drop 1 (l := origins)]
    constructor
    · rintro (hfirst | ⟨hmem, hleft⟩)
      · refine ⟨Or.inl hfirst, ?_⟩
        rintro ⟨front, u, back, -, -, hmem⟩
        exact hdistinct.not_mem_drop hfirst (List.mem_of_mem_drop (List.mem_of_mem_take hmem))
      · exact ⟨Or.inr hmem, hleft⟩
    · rintro ⟨hfirst | hmem, hleft⟩
      · exact Or.inl hfirst
      · exact Or.inr ⟨hmem, hleft⟩
  | .hit u :: pieces, origins, n, i, hdistinct, hlength => by
    have hrest : (origins.drop u.length).length = (pieces.flatMap Piece.text).length := by
      rw [List.length_drop, hlength, List.flatMap_cons, List.length_append]
      exact Nat.add_sub_cancel_left _ _
    have ih : ∀ n, some i ∈ traceHits tokens kind pieces (origins.drop u.length) n ↔
        some i ∈ origins.drop u.length ∧ ¬TakenIn kind pieces (origins.drop u.length) i :=
      fun n => mem_traceHits_iff (hdistinct.drop u.length) hrest
    have happart : some i ∈ origins.take u.length → some i ∉ origins.drop u.length :=
      hdistinct.not_mem_drop
    have hbehind : TakenIn kind pieces (origins.drop u.length) i → some i ∈ origins.drop u.length := by
      rintro ⟨front, v, back, -, -, hmem⟩
      exact List.mem_of_mem_drop (List.mem_of_mem_take hmem)
    rw [takenIn_hit, mem_take_or_drop u.length (l := origins), traceHits]
    cases haccepts : kind.accepts u with
    | true =>
      rw [if_pos rfl, List.mem_append, ih]
      have hnone : some i ∉ (placeholder kind (tokens.next n)).map fun _ => (none : Option ℕ) := by
        simp
      tauto
    | false =>
      rw [if_neg (by decide), List.mem_append, ih]
      have hfalse : ¬(false = true) := by decide
      tauto

theorem length_traceHits : ∀ {pieces : List Piece} {origins : List (Option ℕ)}
    {vault : SensitiveValueVault}, origins.length = (pieces.flatMap Piece.text).length →
      (traceHits tokens kind pieces origins vault.length).length =
        (replaceHits tokens kind pieces vault).1.length
  | [], _, _, _ => rfl
  | .plain c :: pieces, origins, vault, hlength => by
    rw [List.flatMap_cons, List.length_append] at hlength
    have ih : (traceHits tokens kind pieces (origins.drop 1) vault.length).length =
        (replaceHits tokens kind pieces vault).1.length :=
      length_traceHits (by rw [List.length_drop, hlength]; exact Nat.add_sub_cancel_left _ _)
    have hfirst : (origins.take 1).length = 1 := by
      rw [List.length_take, hlength]
      exact Nat.min_eq_left (Nat.le_add_right 1 _)
    rw [traceHits, replaceHits, List.length_append, ih, hfirst]
    exact Nat.add_comm _ _
  | .hit u :: pieces, origins, vault, hlength => by
    rw [List.flatMap_cons, List.length_append] at hlength
    have ih : ∀ vault : SensitiveValueVault,
        (traceHits tokens kind pieces (origins.drop u.length) vault.length).length =
          (replaceHits tokens kind pieces vault).1.length := fun vault =>
      length_traceHits (by rw [List.length_drop, hlength]; exact Nat.add_sub_cancel_left _ _)
    have hfront : (origins.take u.length).length = u.length := by
      rw [List.length_take, hlength]
      exact Nat.min_eq_left (Nat.le_add_right _ _)
    rw [traceHits, replaceHits]
    split
    · have hrest := ih (vault ++ [(placeholder kind (tokens.next vault.length), u)])
      rw [List.length_append, List.length_singleton] at hrest
      dsimp only
      rw [List.length_append, List.length_append, hrest, List.length_map]
    · dsimp only
      rw [List.length_append, List.length_append, ih vault, hfront]

theorem reduceOption_take_drop (n : ℕ) (origins : List (Option ℕ)) :
    (origins.take n).reduceOption ++ (origins.drop n).reduceOption = origins.reduceOption := by
  rw [← List.reduceOption_append, List.take_append_drop]

/-- A pass keeps the order of what it leaves. -/
theorem sublist_traceHits : ∀ {pieces : List Piece} {origins : List (Option ℕ)} {n : ℕ},
    (traceHits tokens kind pieces origins n).reduceOption.Sublist origins.reduceOption
  | [], _, _ => List.nil_sublist _
  | .plain c :: pieces, origins, n => by
    rw [traceHits, List.reduceOption_append, ← reduceOption_take_drop 1 origins]
    exact (List.Sublist.refl _).append sublist_traceHits
  | .hit u :: pieces, origins, n => by
    rw [traceHits, ← reduceOption_take_drop u.length origins]
    split
    · have hnone : ((placeholder kind (tokens.next n)).map
          fun _ => (none : Option ℕ)).reduceOption = [] := by
        rw [List.map_const', List.reduceOption_replicate_none]
      rw [List.reduceOption_append, hnone, List.nil_append]
      exact sublist_traceHits.trans (List.sublist_append_right _ _)
    · rw [List.reduceOption_append]
      exact (List.Sublist.refl _).append sublist_traceHits

/-! ## The passes -/

section Passes

variable (isWord tokens text)

theorem originsAfter_concat (done : List SensitiveKind) (pass : SensitiveKind) :
    originsAfter isWord tokens (done ++ [pass]) text =
      traceHits tokens pass
        ((pass.pattern isWord).pieces (tokenizeKinds isWord tokens done (text, [])).1)
        (originsAfter isWord tokens done text)
        (tokenizeKinds isWord tokens done (text, [])).2.length := by
  have htrace : ∀ (done : List SensitiveKind) (state : List Char × SensitiveValueVault)
      (origins : List (Option ℕ)), traceKinds isWord tokens (done ++ [pass]) state origins =
        traceHits tokens pass
          ((pass.pattern isWord).pieces (tokenizeKinds isWord tokens done state).1)
          (traceKinds isWord tokens done state origins)
          (tokenizeKinds isWord tokens done state).2.length := by
    intro done
    induction done with
    | nil => exact fun _ _ => rfl
    | cons kind done ih => exact fun _ _ => ih _ _
  exact htrace done _ _

/-- Every character after the passes has its place, and none stands twice. -/
theorem originsAfter_induction (done : List SensitiveKind) :
    (originsAfter isWord tokens done text).length =
        (tokenizeKinds isWord tokens done (text, [])).1.length ∧
      Distinct (originsAfter isWord tokens done text) := by
  induction done using List.reverseRecOn with
  | nil =>
    constructor
    · show ((List.range text.length).map some).length = text.length
      rw [List.length_map, List.length_range]
    · show ((List.range text.length).map some).reduceOption.Nodup
      have hrange : ((List.range text.length).map some).reduceOption = List.range text.length := by
        rw [List.reduceOption, List.filterMap_map]
        exact List.filterMap_some
      rw [hrange]
      exact List.nodup_range
  | append_singleton done pass ih =>
    obtain ⟨hlength, hdistinct⟩ := ih
    rw [originsAfter_concat, tokenizeKinds_concat]
    refine ⟨length_traceHits ?_, hdistinct.sublist sublist_traceHits⟩
    rw [hlength, Regex.text_pieces]

/-- A pass leaves what it does not take. -/
theorem clear_concat (done : List SensitiveKind) (pass : SensitiveKind) (i : ℕ) :
    Clear isWord tokens text (done ++ [pass]) i ↔
      Clear isWord tokens text done i ∧ ¬Takes isWord tokens text done pass i := by
  obtain ⟨hlength, hdistinct⟩ := originsAfter_induction isWord tokens text done
  rw [Clear, originsAfter_concat]
  exact mem_traceHits_iff hdistinct (by rw [hlength, Regex.text_pieces])

variable {isWord tokens text}

theorem clear_of_append {done rest : List SensitiveKind} {i : ℕ}
    (h : Clear isWord tokens text (done ++ rest) i) : Clear isWord tokens text done i := by
  induction rest using List.reverseRecOn with
  | nil => rwa [List.append_nil] at h
  | append_singleton rest pass ih =>
    rw [← List.append_assoc, clear_concat] at h
    exact ih h.1

theorem clear_nil {i : ℕ} (hi : i < text.length) : Clear isWord tokens text [] i :=
  List.mem_map.2 ⟨i, List.mem_range.2 hi, rfl⟩

/-- What is gone in the end some pass has taken. -/
theorem exists_takes {i : ℕ} {kinds : List SensitiveKind}
    (hgone : ¬Clear isWord tokens text kinds i) :
    ∀ {rest done : List SensitiveKind}, kinds = done ++ rest → Clear isWord tokens text done i →
      ∃ done' pass rest', kinds = done' ++ pass :: rest' ∧ done.length ≤ done'.length ∧
        Takes isWord tokens text done' pass i
  | [], done, hkinds, hclear => by
    rw [hkinds, List.append_nil] at hgone
    exact absurd hclear hgone
  | pass :: rest, done, hkinds, hclear => by
    by_cases htakes : Takes isWord tokens text done pass i
    · exact ⟨done, pass, rest, hkinds, le_rfl, htakes⟩
    · have hclear' := (clear_concat isWord tokens text done pass i).2 ⟨hclear, htakes⟩
      have hkinds' : kinds = (done ++ [pass]) ++ rest := by
        rw [hkinds, List.append_assoc]
        rfl
      obtain ⟨done', pass', rest', hsplit, hlater, htakes'⟩ := exists_takes hgone hkinds' hclear'
      rw [List.length_append] at hlater
      exact ⟨done', pass', rest', hsplit, by omega, htakes'⟩

/-- A value is whole until a pass tears it, at the latest its own. -/
theorem exists_tearing (indices : Set ℕ) {kinds : List SensitiveKind} :
    ∀ {rest done : List SensitiveKind}, kinds = done ++ rest → kind ∈ rest →
      (∀ i ∈ indices, Clear isWord tokens text done i) →
        ∃ done' pass rest', kinds = done' ++ pass :: rest' ∧ kind ∈ pass :: rest' ∧
          (∀ i ∈ indices, Clear isWord tokens text done' i) ∧
          (pass = kind ∨ ∃ i ∈ indices, Takes isWord tokens text done' pass i)
  | [], _, _, hkind, _ => nomatch hkind
  | pass :: rest, done, hkinds, hkind, hwhole => by
    by_cases htears : pass = kind ∨ ∃ i ∈ indices, Takes isWord tokens text done pass i
    · exact ⟨done, pass, rest, hkinds, hkind, hwhole, htears⟩
    · obtain ⟨hother, hnone⟩ := not_or.1 htears
      have hkind' : kind ∈ rest := (List.mem_cons.1 hkind).resolve_left fun h => hother h.symm
      have hkinds' : kinds = (done ++ [pass]) ++ rest := by
        rw [hkinds, List.append_assoc]
        rfl
      refine exists_tearing indices hkinds' hkind' fun i hi => ?_
      exact (clear_concat isWord tokens text done pass i).2
        ⟨hwhole i hi, fun htakes => hnone ⟨i, hi, htakes⟩⟩

end Passes

/-! ## Coverage -/

theorem bodyLength_le (u : List Char) : bodyLength u ≤ u.length := by
  rw [bodyLength]
  split
  · exact Nat.sub_le _ _
  · exact le_rfl

theorem IsValue.lt_length {i k : ℕ} {u : List Char} (h : IsValue isWord text kind i u)
    (hk : k < bodyLength u) : i + k < text.length := by
  obtain ⟨front, back, hsplit, -, rfl⟩ := h
  have hbody := bodyLength_le u
  rw [← Regex.text_pieces (kind.pattern isWord) text, hsplit, List.flatMap_append,
    List.length_append, List.flatMap_cons, List.length_append, Piece.text]
  omega

end EnterpriseRag
