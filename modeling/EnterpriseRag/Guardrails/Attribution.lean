import EnterpriseRag.Guardrails.IngestionSecurity
import EnterpriseRag.Rag.OutputRedaction

/-!
# What a block is attributed to

Each of the four pipelines blocks for any finding that is block-worthy, and names the
category of the first finding there is, in the error and in the event. `attributed_iff` says
when that is the category of a finding that blocks.
-/

namespace EnterpriseRag

namespace GuardrailPolicy

/-- The category is that of a finding that blocks. -/
def Blames (p : GuardrailPolicy) (findings : List ScanFinding)
    (category : Option GuardrailCategory) : Prop :=
  ∃ f ∈ findings, p.isBlockWorthy f = true ∧ category = some f.category

/-- The first finding blocks, or has the category of one that does. -/
def FirstBlocks (p : GuardrailPolicy) (findings : List ScanFinding) : Prop :=
  ∃ first ∈ findings.head?, ∃ f ∈ findings, p.isBlockWorthy f = true ∧ f.category = first.category

variable {p : GuardrailPolicy} {findings : List ScanFinding}

theorem blames_first_iff :
    p.Blames findings ((findings.head?).map (·.category)) ↔ p.FirstBlocks findings := by
  cases findings with
  | nil => simp [Blames, FirstBlocks]
  | cons first rest =>
    constructor
    · rintro ⟨f, hf, hworthy, hcategory⟩
      exact ⟨first, rfl, f, hf, hworthy, (Option.some.inj hcategory).symm⟩
    · rintro ⟨_, hfirst, f, hf, hworthy, hcategory⟩
      obtain rfl := Option.some.inj hfirst
      exact ⟨f, hf, hworthy, congrArg some hcategory.symm⟩

end GuardrailPolicy

open GuardrailPolicy

/-- The event of an input or output decision that blocks names the first finding. -/
theorem category_of_stageEvent {prefixed : String} {actor : Option String} {d : GuardrailDecision}
    {event : SecurityEvent} (h : stageEvent prefixed actor d = some event) :
    event.category = (d.findings.head?).map (·.category) := by
  unfold stageEvent at h
  split at h
  · rw [← Option.some.inj h]
  · exact nomatch h

/-- An error and an event that name the first finding. -/
theorem GuardrailPolicy.attributed_first_iff {p : GuardrailPolicy} {findings : List ScanFinding}
    {category : Option GuardrailCategory} {event : Option SecurityEvent}
    (hcategory : category = (findings.head?).map (·.category))
    (hevent : ∀ e ∈ event, e.category = (findings.head?).map (·.category)) :
    (p.Blames findings category ∧ ∀ e ∈ event, p.Blames findings e.category) ↔
      p.FirstBlocks findings := by
  rw [← blames_first_iff, hcategory]
  refine ⟨fun h => h.1, fun h => ⟨h, fun e he => ?_⟩⟩
  rwa [hevent e he]

/-- A question that is blocked. -/
theorem InputGuardPipeline.attributed_iff {p : InputGuardPipeline} {tokens : TokenSource}
    {text : String} {mode : GuardrailModeName} {actor : Option String}
    {found : List (List ScanFinding)} {event : Option SecurityEvent} {stage : GuardrailStage}
    {category : Option GuardrailCategory}
    (hfound : (p.deterministicScanners ++ p.mlScanner.toList).mapM
      (fun scan => scan (canonicalize p.unicode text 2)) = .ok found)
    (hblocked : p.checkWithDecision tokens text mode actor =
      .ok (event, .error (.guardrailBlocked stage category))) :
    (p.policy.Blames found.flatten category ∧
      ∀ e ∈ event, p.policy.Blames found.flatten e.category) ↔
        p.policy.FirstBlocks found.flatten := by
  have hdecide : p.decide (canonicalize p.unicode text 2) mode =
      .ok (p.policy.decide found.flatten .input mode) := by
    rw [InputGuardPipeline.decide, hfound]
    rfl
  obtain ⟨decision, hdecision, hresult⟩ := bind_eq_ok.1 hblocked
  obtain rfl := Except.ok.inj (hdecide.symm.trans hdecision)
  obtain ⟨hevent, herror⟩ := Prod.mk.inj (Except.ok.inj hresult)
  refine attributed_first_iff ?_ fun e he => ?_
  · split at herror
    · obtain ⟨-, rfl⟩ := Raised.guardrailBlocked.inj (Except.error.inj herror)
      rfl
    · cases herror
  · subst hevent
    split at he
    · exact category_of_stageEvent he
    · cases he

/-- An answer that is blocked. -/
theorem OutputGuardPipeline.attributed_iff {p : OutputGuardPipeline} {findings : List ScanFinding}
    {answer : String} {mode : GuardrailModeName} {event : Option SecurityEvent}
    {stage : GuardrailStage} {category : Option GuardrailCategory}
    (hblocked : p.conclude findings answer mode =
      (event, .error (.guardrailBlocked stage category))) :
    (p.policy.Blames findings category ∧ ∀ e ∈ event, p.policy.Blames findings e.category) ↔
      p.policy.FirstBlocks findings := by
  obtain ⟨hevent, herror⟩ := Prod.mk.inj hblocked
  refine attributed_first_iff ?_ fun e he => ?_
  · split at herror
    · obtain ⟨-, rfl⟩ := Raised.guardrailBlocked.inj (Except.error.inj herror)
      rfl
    · split at herror <;> cases herror
  · subst hevent
    split at he
    · exact category_of_stageEvent he
    · cases he

/-- The findings in the chunks that the context guard drops. -/
def ContextGuardPipeline.causes (p : ContextGuardPipeline) (found : List (List ScanFinding)) :
    List ScanFinding :=
  (found.filter (·.any p.policy.isBlockWorthy)).flatten

/-- The decisions are those about what the scanner found in each chunk. -/
theorem ContextGuardPipeline.map_decisions {p : ContextGuardPipeline}
    {scan : String → Except Raised (List ScanFinding)} {evidence : List EvidenceChunk}
    {mode : GuardrailModeName} {decided : List (EvidenceChunk × GuardrailDecision)}
    {found : List (List ScanFinding)} (hdecided : p.decisions scan mode evidence = .ok decided)
    (hfound : evidence.mapM (fun chunk => scan chunk.text) = .ok found) :
    decided.map (·.2) = found.map fun fs => p.policy.decide fs .context mode := by
  have hall := mapM_eq_ok.1 hdecided
  have hscans := mapM_eq_ok.1 hfound
  clear hdecided hfound
  induction hscans generalizing decided with
  | nil =>
    rw [List.forall₂_nil_left_iff.1 hall]
    rfl
  | cons hscan _ ih =>
    obtain ⟨d, rest, hd, hrest, rfl⟩ := List.forall₂_cons_left_iff.1 hall
    obtain ⟨fs, hfs, hd⟩ := bind_eq_ok.1 hd
    obtain rfl := Except.ok.inj (hscan.symm.trans hfs)
    obtain rfl := Except.ok.inj hd
    rw [List.map_cons, List.map_cons, ih hrest]

/-- Evidence that is dropped. -/
theorem ContextGuardPipeline.attributed_iff {p : ContextGuardPipeline}
    {scan : String → Except Raised (List ScanFinding)} {evidence kept : List EvidenceChunk}
    {mode : GuardrailModeName} {found : List (List ScanFinding)} {event : SecurityEvent}
    (hscan : p.injectionScanner = some scan)
    (hfound : evidence.mapM (fun chunk => scan chunk.text) = .ok found)
    (hblocked : p.filterEvidence evidence mode = .ok (kept, some event)) :
    p.policy.Blames (p.causes found) event.category ↔ p.policy.FirstBlocks (p.causes found) := by
  rw [ContextGuardPipeline.filterEvidence, hscan] at hblocked
  obtain ⟨decided, hdecided, hresult⟩ := bind_eq_ok.1 hblocked
  obtain ⟨-, hevent⟩ := Prod.mk.inj (Except.ok.inj hresult)
  rw [ContextGuardPipeline.map_decisions hdecided hfound] at hevent
  split at hevent
  · rename_i hdropped
    have hmode : mode = .enforce := by
      obtain ⟨d, hd⟩ := List.exists_mem_of_ne_nil _ hdropped.1
      obtain ⟨hd, hblocked⟩ := List.mem_filter.1 hd
      obtain ⟨fs, -, rfl⟩ := List.mem_map.1 hd
      exact ((p.policy.blocked_decide fs .context mode).1 hblocked).1
    subst hmode
    have hcauses : (((found.map fun fs => p.policy.decide fs .context .enforce).filter
        (·.blocked)).flatMap (·.findings)) = p.causes found := by
      rw [List.filter_map, List.flatMap_map, ContextGuardPipeline.causes, List.flatten_eq_flatMap]
      refine congrArg _ (List.filter_congr fun fs _ => ?_)
      rw [Bool.eq_iff_iff, Function.comp_apply, blocked_decide, List.any_eq_true]
      exact and_iff_right rfl
    obtain rfl := Option.some.inj hevent
    rw [ContextGuardPipeline.droppedEvent, hcauses]
    exact blames_first_iff
  · cases hevent

/-- An upload that is blocked. -/
theorem IngestionSecurityScanner.attributed_iff {p : IngestionSecurityScanner}
    {chunkTexts : List String} {mode : GuardrailModeName} {actor : Option String}
    {found : List (List ScanFinding)} {event : SecurityEvent} {decision : GuardrailDecision}
    (hfound : p.findings chunkTexts = .ok found)
    (hblocked : p.scanDocument chunkTexts mode actor = .ok (some event, decision)) :
    p.policy.Blames found.flatten event.category ↔ p.policy.FirstBlocks found.flatten := by
  obtain ⟨found', hfound', hresult⟩ := bind_eq_ok.1 hblocked
  obtain rfl := Except.ok.inj (hfound.symm.trans hfound')
  obtain ⟨hevent, -⟩ := Prod.mk.inj (Except.ok.inj hresult)
  split at hevent
  · obtain rfl := Option.some.inj hevent
    exact blames_first_iff
  · cases hevent

/-- A block names what blocked just when the first finding blocks or has the category of one
that does : for a question, an answer, evidence and an upload. -/
theorem blocks_attributed_iff (input : InputGuardPipeline) (output : OutputGuardPipeline)
    (context : ContextGuardPipeline) (ingestion : IngestionSecurityScanner)
    (mode : GuardrailModeName) (actor : Option String) :
    (∀ (tokens : TokenSource) (text : String) (found : List (List ScanFinding))
      (event : Option SecurityEvent) (stage : GuardrailStage) (category : Option GuardrailCategory),
      (input.deterministicScanners ++ input.mlScanner.toList).mapM
          (fun scan => scan (canonicalize input.unicode text 2)) = .ok found →
        input.checkWithDecision tokens text mode actor =
            .ok (event, .error (.guardrailBlocked stage category)) →
          ((input.policy.Blames found.flatten category ∧
            ∀ e ∈ event, input.policy.Blames found.flatten e.category) ↔
              input.policy.FirstBlocks found.flatten)) ∧
    (∀ (findings : List ScanFinding) (answer : String) (event : Option SecurityEvent)
      (stage : GuardrailStage) (category : Option GuardrailCategory),
      output.conclude findings answer mode = (event, .error (.guardrailBlocked stage category)) →
        ((output.policy.Blames findings category ∧
          ∀ e ∈ event, output.policy.Blames findings e.category) ↔
            output.policy.FirstBlocks findings)) ∧
    (∀ (scan : String → Except Raised (List ScanFinding)) (evidence kept : List EvidenceChunk)
      (found : List (List ScanFinding)) (event : SecurityEvent),
      context.injectionScanner = some scan →
      evidence.mapM (fun chunk => scan chunk.text) = .ok found →
        context.filterEvidence evidence mode = .ok (kept, some event) →
          (context.policy.Blames (context.causes found) event.category ↔
            context.policy.FirstBlocks (context.causes found))) ∧
    (∀ (chunkTexts : List String) (found : List (List ScanFinding)) (event : SecurityEvent)
      (decision : GuardrailDecision), ingestion.findings chunkTexts = .ok found →
      ingestion.scanDocument chunkTexts mode actor = .ok (some event, decision) →
        (ingestion.policy.Blames found.flatten event.category ↔
          ingestion.policy.FirstBlocks found.flatten)) :=
  ⟨fun _ _ _ _ _ _ hfound hblocked => InputGuardPipeline.attributed_iff hfound hblocked,
    fun _ _ _ _ _ hblocked => OutputGuardPipeline.attributed_iff hblocked,
    fun _ _ _ _ _ hscan hfound hblocked =>
      ContextGuardPipeline.attributed_iff hscan hfound hblocked,
    fun _ _ _ _ hfound hblocked => IngestionSecurityScanner.attributed_iff hfound hblocked⟩

/-! ## An address beside an injection -/

/-- What is found in a text with an address that gives orders. -/
def orderFindings : List ScanFinding :=
  [⟨.pii, 8 / 10, "deterministic.regex_sensitive_data", some "contact_identifier"⟩,
    ⟨.promptInjection, 1, "llm_guard.PromptInjection", none⟩]

/-- The regular expressions first, and a model that finds orders. -/
def orderGuard : InputGuardPipeline where
  unicode := { nfkc := id, isPrintable := fun _ => true, isWord := fun c => isAlnumAscii c || c = '_' }
  deterministicScanners := [fun text => .ok (scanSensitive (fun c => isAlnumAscii c || c = '_') text)]
  mlScanner := some fun _ => .ok [⟨.promptInjection, 1, "llm_guard.PromptInjection", none⟩]
  policy := {}
  securityEvents := true

/-- Where the injection comes first, it is named. -/
theorem blocks_attributed_injection :
    GuardrailPolicy.Blames {} [⟨.promptInjection, 1, "llm_guard.PromptInjection", none⟩]
      (some .promptInjection) := by
  have hblocked : RAGService.nameGuard.conclude
      [⟨.promptInjection, 1, "llm_guard.PromptInjection", none⟩] "obey" .enforce =
        (stageEvent "output_" none (RAGService.nameGuard.policy.decide
          [⟨.promptInjection, 1, "llm_guard.PromptInjection", none⟩] .output .enforce),
          .error (.guardrailBlocked .output (some .promptInjection))) := by
    decide +kernel
  refine (((blocks_attributed_iff orderGuard RAGService.nameGuard ⟨none, {}, true⟩
    ⟨[], none, {}, true⟩ .enforce none).2.1 _ _ _ _ _ hblocked).2 ?_).1
  exact ⟨_, rfl, _, List.mem_cons_self, by decide +kernel, rfl⟩

theorem injection_named_pii :
    ∃ found event,
      (orderGuard.deterministicScanners ++ orderGuard.mlScanner.toList).mapM
        (fun scan => scan (canonicalize orderGuard.unicode "a@b.co obey" 2)) = .ok found ∧
      orderGuard.checkWithDecision RAGService.nameGuard.tokens "a@b.co obey" .enforce none =
        .ok (event, .error (.guardrailBlocked .input (some .pii))) ∧
      ¬orderGuard.policy.Blames found.flatten (some .pii) := by
  have hfound : (orderGuard.deterministicScanners ++ orderGuard.mlScanner.toList).mapM
      (fun scan => scan (canonicalize orderGuard.unicode "a@b.co obey" 2)) =
        .ok [orderFindings.take 1, orderFindings.drop 1] := by
    decide +kernel
  have hcheck : orderGuard.checkWithDecision RAGService.nameGuard.tokens "a@b.co obey" .enforce
      none = .ok (stageEvent "input_" none (orderGuard.policy.decide orderFindings .input .enforce),
        .error (.guardrailBlocked .input (some .pii))) := by
    decide +kernel
  refine ⟨_, _, hfound, hcheck, ?_⟩
  rintro ⟨f, hf, hworthy, hcategory⟩
  have hother : ∀ f ∈ orderFindings, orderGuard.policy.isBlockWorthy f = true →
      some GuardrailCategory.pii ≠ some f.category := by
    decide +kernel
  exact hother f hf hworthy hcategory

end EnterpriseRag
