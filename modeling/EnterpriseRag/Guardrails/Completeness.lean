import EnterpriseRag.Guardrails.CardPass
import EnterpriseRag.Guardrails.RoundTrip

/-!
# Redaction and detection

What the scanner finds in a redacted text. A kind is not recognized after its own pass
(`not_recognizes_self`), so all that is found was bared by a later pass : with a match taken
out, its brackets are boundaries for the text beside it.
-/

namespace EnterpriseRag

variable {isWord : Char → Bool} {tokens : TokenSource} {text : String}

/-- A pass takes all its kind can find. -/
theorem not_recognizes_self (htokens : ∀ n, (tokens.next n).length = 8)
    (kinds : List SensitiveKind) (kind : SensitiveKind) (text : List Char) :
    kind.recognizes isWord (tokenizeKinds isWord tokens (kinds ++ [kind]) (text, [])).1 = false := by
  rw [tokenizeKinds_concat]
  by_cases hkind : kind = .card
  · subst hkind
    obtain ⟨marks, hmarked⟩ := exists_marked isWord htokens kinds (marked_initial text)
    obtain ⟨segments, -, hpieces, hsearched, -⟩ :=
      hmarked.pass .card isWord htokens
    rw [← hpieces, replaceHits_piecesOf, SensitiveKind.recognizes, List.any_eq_false]
    intro u hu
    have hrejects := rejects_redact_card htokens _ hsearched (Or.inl rfl) u
      (Regex.mem_findAll.1 hu)
    rw [SensitiveKind.accepts, hrejects]
    decide
  · rw [Bool.eq_false_iff, Ne, recognizes_pass_iff htokens hkind]
    exact not_bared_self hkind

/-- Cards come last. -/
theorem card_not_mem {done rest : List SensitiveKind} {kind : SensitiveKind}
    (h : SensitiveKind.all = done ++ kind :: rest) : .card ∉ done := by
  have hnodup : SensitiveKind.all.Nodup := by decide
  have hlast : SensitiveKind.all.getLast? = some .card := by decide
  rw [h] at hnodup hlast
  rw [List.getLast?_append_of_ne_nil _ (List.cons_ne_nil _ _)] at hlast
  intro hmem
  exact (List.nodup_append.1 hnodup).2.2 _ hmem _ (List.mem_of_getLast? hlast) rfl

/-- A kind that is taken stays so, if what a later pass bares of it another one takes. -/
theorem not_recognizes_all (htokens : ∀ n, (tokens.next n).length = 8) {value : SensitiveKind}
    (hvalue : value ≠ .card)
    (hlater : ∀ done kind rest, SensitiveKind.all = done ++ kind :: rest → value ∈ done →
      value.recognizes isWord (tokenizeKinds isWord tokens done (text.toList, [])).1 = false →
      value.Bared isWord kind (tokenizeKinds isWord tokens done (text.toList, [])).1 →
        ∃ done' kind' rest', SensitiveKind.all = done' ++ kind' :: rest' ∧
          done.length < done'.length ∧
          ¬value.Bared isWord kind' (tokenizeKinds isWord tokens done' (text.toList, [])).1) :
    ∀ {rest done : List SensitiveKind}, SensitiveKind.all = done ++ rest → value ∈ done →
      value.recognizes isWord (tokenizeKinds isWord tokens done (text.toList, [])).1 = false →
        value.recognizes isWord
          (tokenizeKinds isWord tokens SensitiveKind.all (text.toList, [])).1 = false
  | [], done, hall, _, hclean => by rwa [hall, List.append_nil]
  | kind :: rest, done, hall, hmem, hclean => by
    have hpass : ∀ done kind, value.recognizes isWord
        (tokenizeKinds isWord tokens (done ++ [kind]) (text.toList, [])).1 = true ↔
          value.Bared isWord kind (tokenizeKinds isWord tokens done (text.toList, [])).1 := by
      intro done kind
      rw [tokenizeKinds_concat, recognizes_pass_iff htokens hvalue]
    by_cases hbared : value.Bared isWord kind
        (tokenizeKinds isWord tokens done (text.toList, [])).1
    · obtain ⟨done', kind', rest', hall', hlonger, hhidden⟩ :=
        hlater done kind rest hall hmem hclean hbared
      have hprefixed : done <+: done' := List.prefix_of_prefix_length_le ⟨_, hall.symm⟩
        ⟨_, hall'.symm⟩ hlonger.le
      have hshorter : rest'.length < (kind :: rest).length := by
        have hlengths := congrArg List.length (hall.symm.trans hall')
        simp only [List.length_append, List.length_cons] at hlengths ⊢
        omega
      have hbehind : SensitiveKind.all = (done' ++ [kind']) ++ rest' := by
        rw [hall', List.append_assoc]
        rfl
      refine not_recognizes_all htokens hvalue hlater hbehind
        (List.mem_append_left _ (hprefixed.subset hmem)) ?_
      rw [Bool.eq_false_iff, Ne, hpass]
      exact hhidden
    · have hbehind : SensitiveKind.all = (done ++ [kind]) ++ rest := by
        rw [hall, List.append_assoc]
        rfl
      refine not_recognizes_all htokens hvalue hlater hbehind (List.mem_append_left _ hmem) ?_
      rw [Bool.eq_false_iff, Ne, hpass]
      exact hbared
termination_by rest => rest.length
decreasing_by all_goals first | exact hshorter | exact Nat.lt_succ_self _

/-- The scanner finds nothing in the redacted text just when every value of an earlier kind
that a pass bares is taken again by a later one. -/
theorem scanSensitive_tokenize_iff (htokens : ∀ n, (tokens.next n).length = 8) :
    scanSensitive isWord (tokenize isWord tokens text).1 = [] ↔
      ∀ done kind rest, SensitiveKind.all = done ++ kind :: rest → ∀ value ∈ done,
        value.recognizes isWord (tokenizeKinds isWord tokens done (text.toList, [])).1 = false →
        value.Bared isWord kind (tokenizeKinds isWord tokens done (text.toList, [])).1 →
          ∃ done' kind' rest', SensitiveKind.all = done' ++ kind' :: rest' ∧
            done.length < done'.length ∧
            ¬value.Bared isWord kind' (tokenizeKinds isWord tokens done' (text.toList, [])).1 := by
  rw [scanSensitive_eq_nil, tokenize_fst, String.toList_ofList]
  constructor
  · intro hclean done kind rest hall value hmem _ hbared
    have hvalue : value ≠ .card := fun h => card_not_mem hall (h ▸ hmem)
    have hlast : SensitiveKind.all = [.jwt, .apiKey, .email, .phone, .pan, .aadhaar] ++ [.card] := rfl
    have hhidden := hclean value
    rw [hlast, tokenizeKinds_concat, Bool.eq_false_iff, Ne,
      recognizes_pass_iff htokens hvalue] at hhidden
    refine ⟨_, _, _, hlast, ?_, hhidden⟩
    have hlengths : done.length + (rest.length + 1) = 7 := by
      rw [← List.length_cons (a := kind), ← List.length_append, ← hall]
      rfl
    cases rest with
    | nil =>
      -- then the pass was the last one
      obtain ⟨rfl, hkind⟩ := List.append_inj' (hall.symm.trans hlast) rfl
      obtain rfl := List.singleton_inj.1 hkind
      exact absurd hbared hhidden
    | cons next rest =>
      rw [List.length_cons] at hlengths
      show done.length < 6
      omega
  · intro hlater value
    obtain ⟨done, rest, hall⟩ := List.append_of_mem (mem_allKinds value)
    have hall' : SensitiveKind.all = (done ++ [value]) ++ rest := by
      rw [hall, List.append_assoc]
      rfl
    by_cases hvalue : value = .card
    · subst hvalue
      have hlast : SensitiveKind.all = [.jwt, .apiKey, .email, .phone, .pan, .aadhaar] ++ [.card] :=
        rfl
      rw [hlast]
      exact not_recognizes_self htokens _ _ _
    · exact not_recognizes_all htokens hvalue
        (fun done kind rest hall hmem => hlater done kind rest hall value hmem) hall' (by simp)
        (not_recognizes_self htokens _ _ _)

theorem length_twoTokens (n : ℕ) : (twoTokens.next n).length = 8 := by
  simp [twoTokens]

/-- The bracket behind `com` makes an address of it. -/
theorem address_before_phone :
    scanSensitive asciiWord (tokenize asciiWord twoTokens "x@y.com9876543210").1 ≠ [] := by
  decide +kernel

theorem address_before_phone_bared :
    ¬∀ done kind rest, SensitiveKind.all = done ++ kind :: rest → ∀ value ∈ done,
      value.recognizes asciiWord
        (tokenizeKinds asciiWord twoTokens done ("x@y.com9876543210".toList, [])).1 = false →
      value.Bared asciiWord kind
        (tokenizeKinds asciiWord twoTokens done ("x@y.com9876543210".toList, [])).1 →
        ∃ done' kind' rest', SensitiveKind.all = done' ++ kind' :: rest' ∧
          done.length < done'.length ∧ ¬value.Bared asciiWord kind'
            (tokenizeKinds asciiWord twoTokens done' ("x@y.com9876543210".toList, [])).1 := by
  intro hlater
  have hclean := (scanSensitive_tokenize_iff length_twoTokens).2 hlater
  exact absurd hclean (by decide +kernel)

end EnterpriseRag
