import EnterpriseRag.Library.Firsts
import EnterpriseRag.Rag.ReflectionBounds

/-!
# Augmented evidence

`_dedupe_evidence` keeps the first chunk of each key, the current chunks before the additional
ones, and stops at the cap. So an additional retrieval takes nothing from a current list that
fits under the cap, and adds to one that leaves room (`augmented_of_retrieveMore`). Where the
cap is smaller the last chunks of the answer's own evidence go (`capped_evidence_lost`).
-/

namespace EnterpriseRag

open Program

/-- An additional retrieval keeps every chunk of its own key, has no key twice and gains a new
key if there is one. -/
structure Monotone (casefold : String → String) (current additional new : List EvidenceChunk) :
    Prop where
  kept : (current.firsts (evidenceKey casefold)).Sublist new
  nodup : (new.map (evidenceKey casefold)).Nodup
  gained : (∃ item ∈ additional, evidenceKey casefold item ∉ current.map (evidenceKey casefold)) →
    ∃ item ∈ additional, evidenceKey casefold item ∉ current.map (evidenceKey casefold) ∧
      item ∈ new

/-- The same up to a cap. -/
structure Augmented (casefold : String → String) (maxChunks : ℕ)
    (current additional new : List EvidenceChunk) : Prop where
  kept : (current.firsts (evidenceKey casefold)).take maxChunks <+: new
  nodup : (new.map (evidenceKey casefold)).Nodup
  bounded : new.length ≤ maxChunks
  gained : (current.firsts (evidenceKey casefold)).length < maxChunks →
    (∃ item ∈ additional, evidenceKey casefold item ∉ current.map (evidenceKey casefold)) →
      ∃ item ∈ additional, evidenceKey casefold item ∉ current.map (evidenceKey casefold) ∧
        item ∈ new

variable {casefold : String → String} {maxChunks : ℕ}

/-- The loop keeps the firsts up to the cap. -/
theorem dedupeLoop_eq : ∀ {result rest : List EvidenceChunk}, result.length < maxChunks →
    dedupeLoop casefold maxChunks result rest = result ++
      (List.firstsFrom (evidenceKey casefold) (result.map (evidenceKey casefold)) rest).take
        (maxChunks - result.length)
  | result, [], _ => by simp [dedupeLoop, List.firstsFrom]
  | result, item :: rest, hroom => by
    rw [dedupeLoop, List.firstsFrom]
    by_cases hseen : evidenceKey casefold item ∈ result.map (evidenceKey casefold)
    · rw [if_pos hseen, if_pos hseen, dedupeLoop_eq hroom]
    · rw [if_neg hseen, if_neg hseen]
      have hone : maxChunks - result.length = (maxChunks - (result.length + 1)) + 1 := by omega
      rw [hone, List.take_succ_cons]
      split
      · rename_i hfull
        have hzero : maxChunks - (result.length + 1) = 0 := by omega
        rw [hzero, List.take_zero]
      · rename_i hmore
        have hroom' : (result ++ [item]).length < maxChunks := by
          rw [List.length_append, List.length_singleton]
          omega
        rw [dedupeLoop_eq hroom', List.map_append, List.append_assoc, List.length_append]
        rfl

theorem dedupeEvidence_eq (hmax : 1 ≤ maxChunks) (current additional : List EvidenceChunk) :
    dedupeEvidence casefold maxChunks current additional =
      ((current ++ additional).firsts (evidenceKey casefold)).take maxChunks := by
  rw [dedupeEvidence, dedupeLoop_eq (by exact hmax)]
  rfl

theorem augmented_dedupeEvidence (hmax : 1 ≤ maxChunks) (current additional : List EvidenceChunk) :
    Augmented casefold maxChunks current additional
      (dedupeEvidence casefold maxChunks current additional) := by
  have hnodup : (((current ++ additional).firsts (evidenceKey casefold)).map
      (evidenceKey casefold)).Nodup := List.nodup_firstsFrom.1
  rw [dedupeEvidence_eq hmax]
  let seen := (current.firsts (evidenceKey casefold)).map (evidenceKey casefold)
  have hsplit : (current ++ additional).firsts (evidenceKey casefold) =
      current.firsts (evidenceKey casefold) ++
        List.firstsFrom (evidenceKey casefold) seen additional := List.firstsFrom_append
  refine ⟨?_, ?_, List.length_take_le _ _, fun hroom hnew => ?_⟩
  · rw [hsplit, List.take_append]
    exact List.prefix_append _ _
  · rw [List.map_take]
    exact hnodup.sublist (List.take_sublist _ _)
  obtain ⟨item, hitem, hkey⟩ := hnew
  have hseen : ∀ k, k ∈ seen ↔ k ∈ current.map (evidenceKey casefold) := fun k => by
    rw [show seen = (List.firstsFrom _ [] current).map _ from rfl, List.mem_map_firstsFrom]
    simp
  have hmem : evidenceKey casefold item ∈
      (List.firstsFrom (evidenceKey casefold) seen additional).map (evidenceKey casefold) :=
    List.mem_map_firstsFrom.2 ⟨List.mem_map_of_mem hitem, fun h => hkey ((hseen _).1 h)⟩
  -- the first of the new keys is within the cap
  cases hfirst : List.firstsFrom (evidenceKey casefold) seen additional with
  | nil =>
    rw [hfirst] at hmem
    exact nomatch hmem
  | cons first others =>
    have hin : first ∈ List.firstsFrom (evidenceKey casefold) seen additional := by
      rw [hfirst]
      exact List.mem_cons_self
    refine ⟨first, List.firstsFrom_sublist.subset hin, fun h => ?_, ?_⟩
    · exact List.nodup_firstsFrom.2 first hin ((hseen _).2 h)
    · obtain ⟨room, hlength⟩ : ∃ room, maxChunks -
          (current.firsts (evidenceKey casefold)).length = room + 1 :=
        ⟨_, (Nat.succ_pred_eq_of_pos (Nat.sub_pos_of_lt hroom)).symm⟩
      rw [hsplit, List.take_append, hfirst, hlength, List.take_succ_cons]
      exact List.mem_append_right _ List.mem_cons_self

/-- Two chunks that a cap of one cannot hold. -/
theorem capped_evidence_lost :
    ¬Monotone id (localEvidence [feesChunk, scheduleChunk]) []
      (dedupeEvidence id 1 (localEvidence [feesChunk, scheduleChunk]) []) := by
  intro h
  have hlength := h.kept.length_le
  revert hlength
  decide +kernel

/-! ## In a round -/

namespace ReflectionEngine

variable {e : ReflectionEngine} {question : String} {deadline : ℚ} {maxRetrievals : ℕ}
  {augment : String → RagProgram (List EvidenceChunk)} {state state' : ReflectionState}
  {critique : ReflectionCritique} {action : ReflectionAction} {o : RagOracle}
  {h h' : List RagEvent}

/-- The evidence after a round that goes on from an additional retrieval. -/
theorem dedupeEvidence_of_retrieveMore
    (haction : action = .retrieveMore ∧ state.additionalRetrievals < maxRetrievals)
    (hrun : run o h (e.retrieveMore question deadline maxRetrievals augment state critique action) =
      (.ok (.inr state'), h')) :
    ∃ query additional h₁ h₂, run o h₁ (augment query) = (.ok additional, h₂) ∧
      state'.evidence =
        dedupeEvidence e.casefold e.maxEvidenceChunks state.evidence additional := by
  rw [retrieveMore, if_pos haction] at hrun
  obtain ⟨late, h₀, -, hrun⟩ := run_bind_eq hrun
  split at hrun
  · cases congrArg Prod.fst hrun
  obtain ⟨query, h₁, -, hrun⟩ := run_bind_eq hrun
  obtain ⟨additional, h₂, haugment, hrun⟩ := run_bind_eq hrun
  obtain ⟨exceeded, h₃, -, hrun⟩ := run_bind_eq hrun
  split at hrun
  · cases congrArg Prod.fst hrun
  obtain rfl := Sum.inr.inj (Except.ok.inj (congrArg Prod.fst hrun))
  exact ⟨query, additional, h₁, h₂, haugment, rfl⟩

/-- A round that goes on from an additional retrieval has the evidence augmented by it. -/
theorem augmented_of_retrieveMore (hmax : 1 ≤ e.maxEvidenceChunks)
    (haction : action = .retrieveMore ∧ state.additionalRetrievals < maxRetrievals)
    (hrun : run o h (e.retrieveMore question deadline maxRetrievals augment state critique action) =
      (.ok (.inr state'), h')) :
    ∃ query additional h₁ h₂, run o h₁ (augment query) = (.ok additional, h₂) ∧
      Augmented e.casefold e.maxEvidenceChunks state.evidence additional state'.evidence := by
  obtain ⟨query, additional, h₁, h₂, haugment, hevidence⟩ :=
    dedupeEvidence_of_retrieveMore haction hrun
  rw [hevidence]
  exact ⟨query, additional, h₁, h₂, haugment,
    augmented_dedupeEvidence hmax state.evidence additional⟩

/-- The desk retrieves the schedule of the fees it cites. -/
theorem augmented_of_retrieveMore_desk : ∃ query additional h₁ h₂,
    run (deskDay deskConfig [] [scheduleChunk] "Two percent.") h₁ (deskAugment query) =
      (.ok additional, h₂) ∧
    Augmented id 5 (localEvidence [feesChunk]) additional
      (localEvidence [feesChunk, scheduleChunk]) := by
  let state : ReflectionState :=
    { answer := "Two percent."
      evidence := localEvidence [feesChunk] }
  have hretrieved : (run (deskDay deskConfig [] [scheduleChunk] "Two percent.") []
      (desk.selfReflection.retrieveMore "Fees?" 30 1 deskAugment state (deskCritique false)
        .retrieveMore)).1.toOption =
      some (.inr { state with
        evidence := localEvidence [feesChunk, scheduleChunk]
        additionalRetrievals := 1 }) := by decide +kernel
  rcases hrun : run (deskDay deskConfig [] [scheduleChunk] "Two percent.") []
      (desk.selfReflection.retrieveMore "Fees?" 30 1 deskAugment state (deskCritique false)
        .retrieveMore) with ⟨_ | ended, h⟩
  · rw [hrun] at hretrieved
    exact nomatch hretrieved
  · rw [hrun] at hretrieved
    obtain rfl := Option.some.inj hretrieved
    exact augmented_of_retrieveMore (e := desk.selfReflection) (by decide) ⟨rfl, by decide⟩ hrun

end ReflectionEngine

end EnterpriseRag
