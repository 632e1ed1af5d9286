import EnterpriseRag.Library.Threads
import Mathlib.Data.Set.Lattice
import Mathlib.Order.CompletePartialOrder

/-!
# Programs that own what they use

Programs side by side again, where a program may know more than what stays true under the
operations of the others : what it knows is about keys that it owns. A key is owned by one
program at a time, and a program comes to own only keys that were free.

`Run.apart` is the rule. The other programs' operations have to leave alone only what is known
of keys that their own programs do not own.
-/

namespace Program

namespace Threads

variable {Op : Type} {Res : Op → Type} {ε α ω σ : Type} {κ γ : Type*}
  {start : ω → Program Op Res ε α} {handle : σ → (op : Op) → Res op → σ → Prop}
  {t u : Threads Op Res ε α ω σ} {w : ω} {ws : List ω}

/-- The invariant holds, and every program under way knows enough of the keys it owns. -/
def Apart (P : ω → Prop) (Inv : σ → Prop) (Sound : γ → σ → Prop) (owns : γ → Set κ)
    (allowed : ω → γ → Op → Prop) (next : γ → (op : Op) → Res op → γ)
    (Q : ω → γ → Except ε α → Prop) (t : Threads Op Res ε α ω σ) : Prop :=
  Inv t.state ∧ ∃ known : List ((ω × Program Op Res ε α) × γ), known.map Prod.fst = t.pool ∧
    (∀ e ∈ known, P e.1.1 ∧ Sound e.2 t.state ∧ Keeps (allowed e.1.1) next (Q e.1.1) e.2 e.1.2) ∧
    known.Pairwise fun e e' => Disjoint (owns e.2) (owns e'.2)

variable {P : ω → Prop} {Inv : σ → Prop} {Sound : γ → σ → Prop} {owns : γ → Set κ}
  {free : σ → Set κ} {allowed : ω → γ → Op → Prop} {next : γ → (op : Op) → Res op → γ}
  {Q : ω → γ → Except ε α → Prop}

theorem apart_of_nil (hpool : t.pool = []) (hinv : Inv t.state) :
    Apart P Inv Sound owns allowed next Q t :=
  ⟨hinv, [], hpool.symm, List.forall_mem_nil _, .nil⟩

variable
  (hstart : ∀ w, P w → ∃ g, owns g = ∅ ∧ (∀ s, Sound g s) ∧
    Keeps (allowed w) next (Q w) g (start w))
  (hown : ∀ w g s op r s', P w → Inv s → Sound g s → allowed w g op → handle s op r s' →
    Inv s' ∧ Sound (next g op r) s' ∧ owns (next g op r) ⊆ owns g ∪ free s)
  (hfree : ∀ g s, Sound g s → Disjoint (owns g) (free s))
  (hother : ∀ w g s op r s', Sound g s → allowed w g op → handle s op r s' →
    ∀ g', Disjoint (owns g) (owns g') → Sound g' s → Sound g' s')

include hstart hown hfree hother

theorem Step.apart (h : Step start handle w t u) (hw : P w)
    (ht : Apart P Inv Sound owns allowed next Q t) : Apart P Inv Sound owns allowed next Q u := by
  obtain ⟨hinv, known, hpool, hknown, hdisjoint⟩ := ht
  cases h with
  | arrive s pool =>
    obtain ⟨g, hnothing, hsound, hkeeps⟩ := hstart w hw
    refine ⟨hinv, known ++ [((w, start w), g)], ?_, fun e he => ?_, ?_⟩
    · rw [List.map_append, hpool]
      rfl
    · rcases List.mem_append.1 he with he | he
      · exact hknown e he
      · rw [List.mem_singleton.1 he]
        exact ⟨hw, hsound s, hkeeps⟩
    · refine List.pairwise_append.2 ⟨hdisjoint, List.pairwise_singleton _ _, fun e _ e' he' => ?_⟩
      rw [List.mem_singleton.1 he', hnothing]
      exact Set.disjoint_empty _
  | answer s s' first rest op k r hop =>
    obtain ⟨knownFirst, known', rfl, hfirst, hpool⟩ := List.map_eq_append_iff.1 hpool
    obtain ⟨⟨_, g⟩, knownRest, rfl, rfl, hrest⟩ := List.map_eq_cons_iff.1 hpool
    obtain ⟨-, hg, hallowed, hnext⟩ := hknown ((w, call op k), g) (by simp)
    obtain ⟨hinv', hg', hgain⟩ := hown w g s op r s' hw hinv hg hallowed hop
    obtain ⟨hdisjointFirst, hdisjointRest, hacross⟩ := List.pairwise_append.1 hdisjoint
    obtain ⟨hmineRest, hdisjointRest⟩ := List.pairwise_cons.1 hdisjointRest
    -- what others own is neither owned here nor free
    have hmine : ∀ e ∈ knownFirst ++ knownRest, Disjoint (owns g) (owns e.2) := fun e he => by
      rcases List.mem_append.1 he with he | he
      · exact (hacross e he _ List.mem_cons_self).symm
      · exact hmineRest e he
    have hothers : ∀ e ∈ knownFirst ++ knownRest, P e.1.1 ∧ Sound e.2 s' ∧
        Keeps (allowed e.1.1) next (Q e.1.1) e.2 e.1.2 ∧
        Disjoint (owns (next g op r)) (owns e.2) := fun e he => by
      obtain ⟨hclient, hsound, hkeeps⟩ := hknown e <| by
        rcases List.mem_append.1 he with he | he
        · exact List.mem_append_left _ he
        · exact List.mem_append_right _ (List.mem_cons_of_mem _ he)
      refine ⟨hclient, hother w g s op r s' hg hallowed hop e.2 (hmine e he) hsound, hkeeps,
        Set.disjoint_of_subset_left hgain (Set.disjoint_union_left.2 ⟨hmine e he, ?_⟩)⟩
      exact (hfree e.2 s hsound).symm
    refine ⟨hinv', knownFirst ++ ((w, k r), next g op r) :: knownRest, ?_, fun e he => ?_, ?_⟩
    · rw [List.map_append, List.map_cons, hfirst, hrest]
    · rcases List.mem_append.1 he with he | he
      · obtain ⟨hclient, hsound, hkeeps, -⟩ := hothers e (List.mem_append_left _ he)
        exact ⟨hclient, hsound, hkeeps⟩
      · rcases List.mem_cons.1 he with rfl | he
        · exact ⟨hw, hg', hnext r⟩
        · obtain ⟨hclient, hsound, hkeeps, -⟩ := hothers e (List.mem_append_right _ he)
          exact ⟨hclient, hsound, hkeeps⟩
    · refine List.pairwise_append.2 ⟨hdisjointFirst, List.pairwise_cons.2 ⟨fun e he => ?_,
        hdisjointRest⟩, fun e he e' he' => ?_⟩
      · exact (hothers e (List.mem_append_right _ he)).2.2.2
      · rcases List.mem_cons.1 he' with rfl | he'
        · exact (hothers e (List.mem_append_left _ he)).2.2.2.symm
        · exact hacross e he e' (List.mem_cons_of_mem _ he')
  | stop s first rest p =>
    obtain ⟨knownFirst, known', rfl, hfirst, hpool⟩ := List.map_eq_append_iff.1 hpool
    obtain ⟨e, knownRest, rfl, -, hrest⟩ := List.map_eq_cons_iff.1 hpool
    have hsub : (knownFirst ++ knownRest).Sublist (knownFirst ++ e :: knownRest) :=
      (List.sublist_cons_self e knownRest).append_left knownFirst
    refine ⟨hinv, knownFirst ++ knownRest, ?_, fun e' he' => hknown e' (hsub.subset he'),
      hdisjoint.sublist hsub⟩
    rw [List.map_append, hfirst, hrest]

theorem Run.apart (h : Run start handle ws t u) (hws : ∀ w ∈ ws, P w)
    (ht : Apart P Inv Sound owns allowed next Q t) : Apart P Inv Sound owns allowed next Q u := by
  induction h with
  | nil t => exact ht
  | @cons w ws t u v hstep _ ih =>
    exact ih (fun w' hw' => hws w' (List.mem_cons_of_mem w hw'))
      (hstep.apart hstart hown hfree hother (hws w List.mem_cons_self) ht)

end Threads

end Program
