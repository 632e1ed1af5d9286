import Mathlib.Data.List.Basic
import Mathlib.Data.List.Induction
import Mathlib.Data.Option.Basic

/-!
# Runs of a partial transition function

A system is a function `step : σ → α → Option σ`. An event `a` refused in a state
gives `none`, and a run is a list of events none of which is refused (`exec`).

Three rules carry the results about runs. `invariant` is the induction over a run:
what holds at the start and is kept by every step holds at the end. `Along` asks a
condition of every step of a run, in the state the step is taken from, and
`invariant_along` is the induction for steps that keep an invariant only under the
condition. When the condition is also necessary, step by step, `forall_reached_iff_along`
turns it into an exact one : the invariant holds in every state of the run if and only
if every step meets the condition. `forall_segment_iff_along` is the same for a
reflexive and transitive relation between two states of the run.
`holds_iff_last_decisive` is for a property that some events decide and the others leave
alone : the last decisive event of the run settles it. `holds_iff_set_and_kept` is for a fact
that some steps establish and others end, in the states they are taken from.
-/

namespace Transition

variable {σ α : Type*} {step : σ → α → Option σ}

/-- The state after the events, `none` once one of them is refused. -/
def exec (step : σ → α → Option σ) : σ → List α → Option σ
  | s, [] => some s
  | s, a :: as => (step s a).bind fun s' => exec step s' as

@[simp] theorem exec_nil (s : σ) : exec step s [] = some s :=
  rfl

theorem exec_cons {s t : σ} {a : α} {as : List α} :
    exec step s (a :: as) = some t ↔ ∃ s', step s a = some s' ∧ exec step s' as = some t := by
  simp [exec, Option.bind_eq_some_iff]

theorem exec_append {as bs : List α} :
    ∀ {s t : σ}, exec step s (as ++ bs) = some t ↔
      ∃ u, exec step s as = some u ∧ exec step u bs = some t := by
  induction as with
  | nil => simp
  | cons a as ih =>
    intro s t
    rw [List.cons_append, exec_cons]
    constructor
    · rintro ⟨s', hs, h⟩
      obtain ⟨u, hu, ht⟩ := ih.1 h
      exact ⟨u, exec_cons.2 ⟨s', hs, hu⟩, ht⟩
    · rintro ⟨u, hu, ht⟩
      obtain ⟨s', hs, hu⟩ := exec_cons.1 hu
      exact ⟨s', hs, ih.2 ⟨u, hu, ht⟩⟩

theorem exec_singleton {s t : σ} {a : α} : exec step s [a] = some t ↔ step s a = some t := by
  simp [exec_cons]

/-- What every step keeps, a run keeps. -/
theorem invariant {I : σ → Prop} (hstep : ∀ s a s', I s → step s a = some s' → I s') :
    ∀ {as : List α} {s t : σ}, I s → exec step s as = some t → I t
  | [], s, t, h, he => by
    obtain rfl : s = t := by simpa using he
    exact h
  | a :: as, s, t, h, he => by
    obtain ⟨s', hs, ht⟩ := exec_cons.1 he
    exact invariant hstep (hstep s a s' h hs) ht

/-! ## A condition on every step -/

/-- Every event of the run is taken in a state where `P` holds of the two. -/
def Along (step : σ → α → Option σ) (P : σ → α → Prop) : σ → List α → Prop
  | _, [] => True
  | s, a :: as => P s a ∧ ∀ s', step s a = some s' → Along step P s' as

instance decidableAlong {P : σ → α → Prop} [∀ s a, Decidable (P s a)] :
    ∀ (s : σ) (as : List α), Decidable (Along step P s as)
  | _, [] => isTrue trivial
  | s, a :: as =>
    have : Decidable (∀ s', step s a = some s' → Along step P s' as) :=
      match step s a with
      | none => isTrue fun _ h => nomatch h
      | some s' =>
        have := decidableAlong (P := P) s' as
        decidable_of_iff (Along step P s' as)
          ⟨fun h _ hs => Option.some.inj hs ▸ h, fun h => h s' rfl⟩
    inferInstanceAs (Decidable (P s a ∧ ∀ s', step s a = some s' → Along step P s' as))

theorem along_cons {P : σ → α → Prop} {s s' : σ} {a : α} {as : List α} (hs : step s a = some s') :
    Along step P s (a :: as) ↔ P s a ∧ Along step P s' as := by
  constructor
  · rintro ⟨h, hrest⟩
    exact ⟨h, hrest s' hs⟩
  · rintro ⟨h, hrest⟩
    refine ⟨h, fun s'' hs'' => ?_⟩
    obtain rfl : s' = s'' := Option.some.inj (hs.symm.trans hs'')
    exact hrest

/-- What every step that meets the condition keeps, a run of such steps keeps. -/
theorem invariant_along {I : σ → Prop} {P : σ → α → Prop}
    (hstep : ∀ s a s', I s → P s a → step s a = some s' → I s') :
    ∀ {as : List α} {s t : σ}, I s → Along step P s as → exec step s as = some t → I t
  | [], s, t, h, _, he => by
    obtain rfl : s = t := by simpa using he
    exact h
  | a :: as, s, t, h, hp, he => by
    obtain ⟨s', hs, ht⟩ := exec_cons.1 he
    obtain ⟨hpa, hpas⟩ := (along_cons hs).1 hp
    exact invariant_along hstep (hstep s a s' h hpa hs) hpas ht

/-- What every step that meets the condition relates, a run of such steps relates, for a
reflexive and transitive relation. -/
theorem related_along {J : σ → Prop} {R : σ → σ → Prop} {P : σ → α → Prop} (hrefl : ∀ s, R s s)
    (htrans : ∀ {s t u}, R s t → R t u → R s u)
    (hJ : ∀ s a s', J s → step s a = some s' → J s')
    (hstep : ∀ s a s', J s → P s a → step s a = some s' → R s s') :
    ∀ {as : List α} {s t : σ}, J s → Along step P s as → exec step s as = some t → R s t
  | [], s, t, _, _, he => by
    obtain rfl : s = t := by simpa using he
    exact hrefl s
  | a :: as, s, t, hj, hp, he => by
    obtain ⟨s', hs, ht⟩ := exec_cons.1 he
    obtain ⟨hpa, hpas⟩ := (along_cons hs).1 hp
    exact htrans (hstep s a s' hj hpa hs)
      (related_along hrefl htrans hJ hstep (hJ s a s' hj hs) hpas ht)

theorem along_append {P : σ → α → Prop} {bs : List α} :
    ∀ {as : List α} {s u : σ}, exec step s as = some u →
      (Along step P s (as ++ bs) ↔ Along step P s as ∧ Along step P u bs)
  | [], s, u, he => by
    obtain rfl : s = u := by simpa using he
    simp [Along]
  | a :: as, s, u, he => by
    obtain ⟨s', hs, hu⟩ := exec_cons.1 he
    rw [List.cons_append, along_cons hs, along_cons hs, along_append hu, and_assoc]

theorem along_of_forall_mem {P : σ → α → Prop} {as : List α} (h : ∀ a ∈ as, ∀ s, P s a) (s : σ) :
    Along step P s as := by
  induction as generalizing s with
  | nil => trivial
  | cons a as ih =>
    exact ⟨h a (by simp) s, fun s' _ => ih (fun b hb => h b (List.mem_cons_of_mem a hb)) s'⟩

theorem along_congr {P Q : σ → α → Prop} {as : List α} (h : ∀ a ∈ as, ∀ s, P s a ↔ Q s a) (s : σ) :
    Along step P s as ↔ Along step Q s as := by
  induction as generalizing s with
  | nil => exact Iff.rfl
  | cons a as ih =>
    rw [Along, Along, h a (by simp) s]
    simp only [ih fun b hb => h b (List.mem_cons_of_mem a hb)]

theorem along_iff_forall_split {P : σ → α → Prop} :
    ∀ {as : List α} {s : σ}, Along step P s as ↔
      ∀ pre a post u, as = pre ++ a :: post → exec step s pre = some u → P u a
  | [], s => by simp [Along]
  | a :: as, s => by
    constructor
    · rintro ⟨hp, hrest⟩ pre b post u hsplit hu
      cases pre with
      | nil =>
        obtain ⟨rfl, -⟩ := List.cons.inj hsplit
        obtain rfl : s = u := by simpa using hu
        exact hp
      | cons c pre =>
        obtain ⟨rfl, htail⟩ := List.cons.inj hsplit
        obtain ⟨s', hs, hu⟩ := exec_cons.1 hu
        exact along_iff_forall_split.1 (hrest s' hs) pre b post u htail hu
    · intro h
      refine ⟨h [] a as s rfl rfl, fun s' hs => along_iff_forall_split.2 ?_⟩
      intro pre b post u hsplit hu
      exact h (a :: pre) b post u (by rw [hsplit, List.cons_append]) (exec_cons.2 ⟨s', hs, hu⟩)

/-- An invariant holds in every state a run reaches exactly when every step meets the
condition, if a step keeps the invariant exactly when it meets the condition. `J` is
what holds in any case. -/
theorem forall_reached_iff_along {I J : σ → Prop} {P : σ → α → Prop}
    (hJ : ∀ s a s', J s → step s a = some s' → J s')
    (hstep : ∀ s a s', J s → I s → step s a = some s' → (I s' ↔ P s a)) :
    ∀ {as : List α} {s t : σ}, J s → I s → exec step s as = some t →
      ((∀ pre post u, as = pre ++ post → exec step s pre = some u → I u) ↔ Along step P s as)
  | [], s, t, _, hI, _ => by
    refine iff_of_true (fun pre post u h hu => ?_) trivial
    obtain ⟨rfl, rfl⟩ := List.append_eq_nil_iff.1 h.symm
    obtain rfl : s = u := by simpa using hu
    exact hI
  | a :: as, s, t, hj, hI, he => by
    obtain ⟨s', hs, ht⟩ := exec_cons.1 he
    rw [along_cons hs]
    constructor
    · intro h
      have hI' : I s' := h [a] as s' rfl (exec_singleton.2 hs)
      refine ⟨(hstep s a s' hj hI hs).1 hI', ?_⟩
      refine (forall_reached_iff_along hJ hstep (hJ s a s' hj hs) hI' ht).1 ?_
      intro pre post u hsplit hu
      exact h (a :: pre) post u (by rw [hsplit, List.cons_append]) (exec_cons.2 ⟨s', hs, hu⟩)
    · rintro ⟨hp, halong⟩ pre post u hsplit hu
      have hI' : I s' := (hstep s a s' hj hI hs).2 hp
      cases pre with
      | nil =>
        obtain rfl : s = u := by simpa using hu
        exact hI
      | cons b pre =>
        rw [List.cons_append, List.cons.injEq] at hsplit
        obtain ⟨rfl, hsplit⟩ := hsplit
        obtain ⟨s'', hs'', hu⟩ := exec_cons.1 hu
        obtain rfl : s' = s'' := Option.some.inj (hs.symm.trans hs'')
        exact (forall_reached_iff_along hJ hstep (hJ s a s' hj hs) hI' ht).2 halong pre post u
          hsplit hu

/-- Any two states of a run, the later after the earlier, are related exactly when every
step meets the condition, if a step relates its states exactly when it does. -/
theorem forall_segment_iff_along {J : σ → Prop} {R : σ → σ → Prop} {P : σ → α → Prop}
    (hrefl : ∀ s, R s s) (htrans : ∀ {s t u}, R s t → R t u → R s u)
    (hJ : ∀ s a s', J s → step s a = some s' → J s')
    (hstep : ∀ s a s', J s → step s a = some s' → (R s s' ↔ P s a)) :
    ∀ {as : List α} {s t : σ}, J s → exec step s as = some t →
      ((∀ pre mid post u v, as = pre ++ mid ++ post → exec step s pre = some u →
        exec step u mid = some v → R u v) ↔ Along step P s as) := by
  intro as s t hj he
  constructor
  · intro h
    induction as generalizing s with
    | nil => trivial
    | cons a as ih =>
      obtain ⟨s', hs, ht⟩ := exec_cons.1 he
      have hR : R s s' := h [] [a] as s s' rfl rfl (exec_singleton.2 hs)
      refine (along_cons hs).2 ⟨(hstep s a s' hj hs).1 hR, ih (hJ s a s' hj hs) ht ?_⟩
      intro pre mid post u v hsplit hu hv
      exact h (a :: pre) mid post u v (by rw [hsplit]; rfl) (exec_cons.2 ⟨s', hs, hu⟩) hv
  · -- a segment of a run is a run of its own, whose steps meet the condition
    intro halong pre mid post u v hsplit hu hv
    have hpre : exec step s (pre ++ mid) = some v := exec_append.2 ⟨u, hu, hv⟩
    rw [hsplit] at halong
    have hmid : Along step P u mid :=
      ((along_append hu).1 ((along_append hpre).1 halong).1).2
    have hju : J u := invariant hJ hj hu
    exact related_along hrefl htrans hJ (fun s a s' hj hp hs => (hstep s a s' hj hs).2 hp) hju
      hmid hv

/-! ## What a run puts out -/

/-- The outputs of the events of a run, in order. -/
def outputs {β : Type*} (step : σ → α → Option σ) (f : σ → α → List β) : σ → List α → List β
  | _, [] => []
  | s, a :: as => f s a ++ (step s a).elim [] fun s' => outputs step f s' as

theorem outputs_cons {β : Type*} {f : σ → α → List β} {s s' : σ} {a : α} {as : List α}
    (hs : step s a = some s') : outputs step f s (a :: as) = f s a ++ outputs step f s' as := by
  rw [outputs, hs, Option.elim_some]

/-- A quantity that every step which meets the condition maps by its outputs is mapped by the
outputs of the run, for an action of the lists of outputs. -/
theorem eq_act_outputs {β γ : Type*} {f : σ → α → List β} {J : σ → Prop} {P : σ → α → Prop}
    {q : σ → γ} {act : List β → γ → γ} (hnil : ∀ c, act [] c = c)
    (happend : ∀ bs bs' c, act (bs ++ bs') c = act bs' (act bs c))
    (hJ : ∀ s a s', J s → P s a → step s a = some s' → J s')
    (hstep : ∀ s a s', J s → P s a → step s a = some s' → q s' = act (f s a) (q s)) :
    ∀ {as : List α} {s t : σ}, J s → Along step P s as → exec step s as = some t →
      q t = act (outputs step f s as) (q s)
  | [], s, t, _, _, he => by
    obtain rfl : s = t := by simpa using he
    rw [outputs, hnil]
  | a :: as, s, t, hj, hp, he => by
    obtain ⟨s', hs, ht⟩ := exec_cons.1 he
    obtain ⟨hpa, hpas⟩ := (along_cons hs).1 hp
    rw [eq_act_outputs hnil happend hJ hstep (hJ s a s' hj hpa hs) hpas ht,
      hstep s a s' hj hpa hs, outputs_cons hs, happend]

/-! ## The last decisive event -/

theorem concat_eq_append_cons {as pre post : List α} {a b : α} (h : as ++ [b] = pre ++ a :: post) :
    (pre = as ∧ a = b ∧ post = []) ∨ ∃ post', post = post' ++ [b] ∧ as = pre ++ a :: post' := by
  induction post using List.reverseRecOn with
  | nil =>
    obtain ⟨hpre, hab⟩ := List.append_inj' h rfl
    exact Or.inl ⟨hpre.symm, (List.singleton_inj.1 hab).symm, rfl⟩
  | append_singleton post' c _ =>
    rw [← List.cons_append, ← List.append_assoc] at h
    obtain ⟨has, hbc⟩ := List.append_inj' h rfl
    rw [List.singleton_inj.1 hbc]
    exact Or.inr ⟨post', rfl, has⟩

/-- The last decisive event settles the property. Events where `D` fails leave `G` as it
was; an event where `D` holds makes `G` true exactly when `P` holds of it and the state
it is taken from. -/
theorem holds_iff_last_decisive {G J : σ → Prop} {D : α → Prop} {P : σ → α → Prop}
    (hJ : ∀ s a s', J s → step s a = some s' → J s')
    (hkeep : ∀ s a s', J s → ¬D a → step s a = some s' → (G s' ↔ G s))
    (hset : ∀ s a s', J s → D a → step s a = some s' → (G s' ↔ P s a))
    {as : List α} {s : σ} (hj : J s) (hG : G s) :
    ∀ {t : σ}, exec step s as = some t →
      (G t ↔ ∀ pre a post u, as = pre ++ a :: post → exec step s pre = some u → D a →
        (∀ b ∈ post, ¬D b) → P u a) := by
  induction as using List.reverseRecOn with
  | nil =>
    intro t he
    obtain rfl : s = t := by simpa using he
    exact iff_of_true hG fun pre a post u h => by simp at h
  | append_singleton as b ih =>
    intro t he
    obtain ⟨v, hv, hb⟩ := exec_append.1 he
    rw [exec_singleton] at hb
    have hjv : J v := invariant hJ hj hv
    by_cases hD : D b
    · rw [hset v b t hjv hD hb]
      constructor
      · intro hP pre a post u hsplit hu _ hpost
        rcases concat_eq_append_cons hsplit with ⟨rfl, rfl, rfl⟩ | ⟨post', rfl, -⟩
        · obtain rfl : v = u := Option.some.inj (hv.symm.trans hu)
          exact hP
        · exact absurd hD (hpost b (by simp))
      · intro h
        exact h as b [] v rfl hv hD (by simp)
    · rw [hkeep v b t hjv hD hb, ih hv]
      constructor
      · intro h pre a post u hsplit hu hDa hpost
        rcases concat_eq_append_cons hsplit with ⟨rfl, rfl, rfl⟩ | ⟨post', rfl, has⟩
        · exact absurd hDa hD
        · exact h pre a post' u has hu hDa fun c hc => hpost c (by simp [hc])
      · intro h pre a post u hsplit hu hDa hpost
        refine h pre a (post ++ [b]) u (by rw [hsplit]; simp) hu hDa fun c hc => ?_
        rcases List.mem_append.1 hc with hc | hc
        · exact hpost c hc
        · rw [List.mem_singleton.1 hc]
          exact hD

/-! ## What a run sets and keeps -/

/-- What a step makes true, or was true and the step keeps, is true after a run if some step of
the run made it true and the steps since keep it, or if it was true at the start and the whole
run keeps it. -/
theorem holds_iff_set_and_kept {G : σ → Prop} {Sets Keeps : σ → α → Prop}
    (hstep : ∀ s a s', step s a = some s' → (G s' ↔ Sets s a ∨ (Keeps s a ∧ G s)))
    {as : List α} :
    ∀ {s t : σ}, exec step s as = some t →
      (G t ↔ (∃ pre a post u u', as = pre ++ a :: post ∧ exec step s pre = some u ∧
          step u a = some u' ∧ Sets u a ∧ Along step Keeps u' post) ∨
        (G s ∧ Along step Keeps s as)) := by
  induction as with
  | nil =>
    intro s t h
    obtain rfl : s = t := by simpa using h
    simp [Along]
  | cons a as ih =>
    intro s t h
    obtain ⟨s', hs, ht⟩ := exec_cons.1 h
    rw [ih ht, hstep s a s' hs, along_cons hs]
    constructor
    · rintro (⟨pre, b, post, u, u', rfl, hu, hrest⟩ | ⟨hset | ⟨hkeep, hG⟩, halong⟩)
      · exact Or.inl ⟨a :: pre, b, post, u, u', rfl, exec_cons.2 ⟨s', hs, hu⟩, hrest⟩
      · exact Or.inl ⟨[], a, as, s, s', rfl, rfl, hs, hset, halong⟩
      · exact Or.inr ⟨hG, hkeep, halong⟩
    · rintro (⟨pre, b, post, u, u', hsplit, hu, hb, hset, halong⟩ | ⟨hG, hkeep, halong⟩)
      · cases pre with
        | nil =>
          obtain ⟨rfl, rfl⟩ := List.cons.inj hsplit
          obtain rfl : s = u := by simpa using hu
          obtain rfl : s' = u' := Option.some.inj (hs.symm.trans hb)
          exact Or.inr ⟨Or.inl hset, halong⟩
        | cons b' pre =>
          obtain ⟨rfl, rfl⟩ := List.cons.inj hsplit
          obtain ⟨s'', hs'', hu⟩ := exec_cons.1 hu
          obtain rfl : s' = s'' := Option.some.inj (hs.symm.trans hs'')
          exact Or.inl ⟨pre, b, post, u, u', rfl, hu, hb, hset, halong⟩
      · exact Or.inr ⟨Or.inr ⟨hkeep, hG⟩, halong⟩

end Transition
