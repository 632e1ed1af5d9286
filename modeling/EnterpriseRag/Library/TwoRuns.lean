import EnterpriseRag.Library.Program

/-!
# Two runs that look the same

A `view` shows some of the events of a run, or something of them, and hides the others. Two
histories look the same if the view shows the same of both. `Matches o o' R p p'` says that
runs of `p` under `o` and of `p'` under `o'` from histories that look the same end with
histories that look the same, both with the same error or both with results that `R` relates.

`matches_bind` and `matches_call` take two programs apart together, `Quiet.matches_left` and
`Quiet.matches_right` pass over a part of one of them that the view hides. A program all of
whose operations the two oracles answer alike matches itself (`Uses.matches_self`).
-/

namespace Program

variable {Op : Type} {Res : Op → Type} {ε α α' β β' V : Type}

/-- Both computations raise the same, or return what `R` relates. -/
inductive Agree (R : α → α' → Prop) : Except ε α → Except ε α' → Prop
  | ok {a : α} {a' : α'} (h : R a a') : Agree R (.ok a) (.ok a')
  | error (e : ε) : Agree R (.error e) (.error e)

theorem Agree.mono {R R' : α → α' → Prop} {x : Except ε α} {x' : Except ε α'} (h : Agree R x x')
    (hR : ∀ a a', R a a' → R' a a') : Agree R' x x' := by
  cases h with
  | ok h => exact .ok (hR _ _ h)
  | error e => exact .error e

theorem agree_self (x : Except ε α) : Agree Eq x x := by
  cases x with
  | ok a => exact .ok rfl
  | error e => exact .error e

/-- Two computations in two parts. -/
theorem Agree.bind {R : α → α' → Prop} {R' : β → β' → Prop} {x : Except ε α} {x' : Except ε α'}
    {f : α → Except ε β} {f' : α' → Except ε β'} (h : Agree R x x')
    (hf : ∀ a a', R a a' → Agree R' (f a) (f' a')) : Agree R' (x >>= f) (x' >>= f') := by
  cases h with
  | ok h => exact hf _ _ h
  | error e => exact .error e

/-- Two histories of which the view shows the same. -/
def LooksLike (view : Event Op Res → Option V) (h h' : List (Event Op Res)) : Prop :=
  h.filterMap view = h'.filterMap view

section LooksLike

variable {view : Event Op Res → Option V} {h h' : List (Event Op Res)} {op op' : Op}
  {r : Res op} {r' : Res op'}

theorem LooksLike.concat (hh : LooksLike view h h') (hview : view ⟨op, r⟩ = view ⟨op', r'⟩) :
    LooksLike view (h ++ [⟨op, r⟩]) (h' ++ [⟨op', r'⟩]) := by
  simp only [LooksLike, List.filterMap_append, List.filterMap_cons, hview] at hh ⊢
  rw [hh]

theorem LooksLike.concat_left (hh : LooksLike view h h') (hview : view ⟨op, r⟩ = none) :
    LooksLike view (h ++ [⟨op, r⟩]) h' := by
  rw [LooksLike, List.filterMap_append, List.filterMap_cons, hview, List.filterMap_nil,
    List.append_nil]
  exact hh

end LooksLike

/-- From histories that look the same, both programs end with histories that look the same and
with results that agree. -/
def Matches (view : Event Op Res → Option V) (o o' : Oracle Op Res) (R : α → α' → Prop)
    (p : Program Op Res ε α) (p' : Program Op Res ε α') : Prop :=
  ∀ h h', LooksLike view h h' → LooksLike view (run o h p).2 (run o' h' p').2 ∧
    Agree R (run o h p).1 (run o' h' p').1

/-- The view hides all that the program does, and it returns one of `P`. -/
def Quiet (view : Event Op Res → Option V) (o : Oracle Op Res) (P : α → Prop)
    (p : Program Op Res ε α) : Prop :=
  ∀ h, LooksLike view (run o h p).2 h ∧ ∃ a, (run o h p).1 = .ok a ∧ P a

/-! ## Errors of a run -/

/-- Whatever the history, a run that raises raises one of `P`. -/
def RaisesOnly (o : Oracle Op Res) (P : ε → Prop) (p : Program Op Res ε α) : Prop :=
  ∀ h e, (run o h p).1 = .error e → P e

section RaisesOnly

variable {o : Oracle Op Res} {P : ε → Prop} {p : Program Op Res ε α}
  {f : α → Program Op Res ε β}

theorem raisesOnly_pure {a : α} : RaisesOnly o P (Pure.pure a : Program Op Res ε α) :=
  fun _ _ h => nomatch h

theorem raisesOnly_raise {e : ε} (h : P e) : RaisesOnly o P (raise e : Program Op Res ε α) := by
  intro _ e' he
  obtain rfl := Except.error.inj he
  exact h

theorem raisesOnly_orRaise {x : Except ε α} (h : ∀ e, x = .error e → P e) :
    RaisesOnly o P (orRaise x : Program Op Res ε α) := by
  cases x with
  | error e => exact raisesOnly_raise (h e rfl)
  | ok a => exact raisesOnly_pure

theorem raisesOnly_ask {op : Op} {g : Res op → Except ε α}
    (h : ∀ hist e, g (o hist op) = .error e → P e) : RaisesOnly o P (ask op g) :=
  fun hist _ => raisesOnly_orRaise (h hist) _ _

theorem raisesOnly_perform {op : Op} :
    RaisesOnly o P (perform op : Program Op Res ε (Res op)) :=
  fun _ _ h => nomatch h

theorem RaisesOnly.bind (hp : RaisesOnly o P p) (hf : ∀ a, RaisesOnly o P (f a)) :
    RaisesOnly o P (p >>= f) := by
  intro h e he
  rw [bind_eq, run_bind] at he
  split at he
  · exact hf _ _ e he
  · rename_i hrun
    obtain rfl := Except.error.inj he
    exact hp h _ (by rw [hrun])

/-- A guarded program raises what its handler does. -/
theorem RaisesOnly.tryCatch {P' : ε → Prop} {handler : ε → Program Op Res ε α}
    (hp : RaisesOnly o P p) (hhandler : ∀ e, P e → RaisesOnly o P' (handler e)) :
    RaisesOnly o P' (p.tryCatch handler) := by
  intro h e he
  rw [run_tryCatch] at he
  split at he
  · exact nomatch he
  · rename_i hrun
    exact hhandler _ (hp h _ (by rw [hrun])) _ e he

end RaisesOnly

/-! ## The rules -/

section Rules

variable {view : Event Op Res → Option V} {o o' : Oracle Op Res} {R : α → α' → Prop}
  {R' : β → β' → Prop} {P : α → Prop} {P' : β → Prop} {p : Program Op Res ε α}
  {p' : Program Op Res ε α'} {f : α → Program Op Res ε β} {f' : α' → Program Op Res ε β'}
  {q : Program Op Res ε β} {q' : Program Op Res ε β'}

theorem matches_pure {a : α} {a' : α'} (h : R a a') :
    Matches view o o' R (Pure.pure a : Program Op Res ε α) (Pure.pure a') :=
  fun _ _ hh => ⟨hh, .ok h⟩

theorem matches_orRaise {x : Except ε α} {x' : Except ε α'} (h : Agree R x x') :
    Matches view o o' R (orRaise x : Program Op Res ε α) (orRaise x') := by
  cases h with
  | ok h => exact matches_pure h
  | error e => exact fun _ _ hh => ⟨hh, .error e⟩

theorem Matches.mono {R₂ : α → α' → Prop} (hp : Matches view o o' R p p')
    (hR : ∀ a a', R a a' → R₂ a a') : Matches view o o' R₂ p p' :=
  fun h h' hh => ⟨(hp h h' hh).1, (hp h h' hh).2.mono hR⟩

/-- Two programs in two parts. -/
theorem matches_bind (hp : Matches view o o' R p p')
    (hf : ∀ a a', R a a' → Matches view o o' R' (f a) (f' a')) :
    Matches view o o' R' (p >>= f) (p' >>= f') := by
  intro h h' hh
  obtain ⟨hlooks, hagree⟩ := hp h h' hh
  rw [bind_eq, bind_eq, run_bind, run_bind]
  cases hrun : run o h p with
  | mk x g =>
    cases hrun' : run o' h' p' with
    | mk x' g' =>
      rw [hrun, hrun'] at hlooks hagree
      dsimp only at hlooks hagree
      cases hagree with
      | ok ha => exact hf _ _ ha g g' hlooks
      | error e => exact ⟨hlooks, .error e⟩

/-- Two operations of which the view shows the same, and what follows them. -/
theorem matches_call {op op' : Op} {k : Res op → Program Op Res ε α}
    {k' : Res op' → Program Op Res ε α'}
    (hview : ∀ h h', LooksLike view h h' → view ⟨op, o h op⟩ = view ⟨op', o' h' op'⟩)
    (hk : ∀ h h', LooksLike view h h' → Matches view o o' R (k (o h op)) (k' (o' h' op'))) :
    Matches view o o' R (call op k) (call op' k') :=
  fun h h' hh => hk h h' hh _ _ (hh.concat (hview h h' hh))

/-- A program all of whose operations the oracles answer alike. -/
theorem Uses.matches_self {S : Op → Prop}
    (hS : ∀ op, S op → ∀ h h', LooksLike view h h' → o h op = o' h' op) :
    ∀ {p : Program Op Res ε α}, p.Uses S → Matches view o o' Eq p p
  | pure _, _ => matches_pure rfl
  | raise e, _ => fun _ _ hh => ⟨hh, .error e⟩
  | call op k, hp => by
    refine matches_call (fun h h' hh => ?_) fun h h' hh => ?_
    · rw [hS op hp.1 h h' hh]
    · rw [hS op hp.1 h h' hh]
      exact (hp.2 _).matches_self hS

/-! ### Parts that are hidden -/

theorem quiet_pure {a : α} (h : P a) : Quiet view o P (Pure.pure a : Program Op Res ε α) :=
  fun _ => ⟨rfl, a, rfl, h⟩

theorem Quiet.mono {P₂ : α → Prop} (hp : Quiet view o P p) (hP : ∀ a, P a → P₂ a) :
    Quiet view o P₂ p := by
  intro h
  obtain ⟨hlooks, a, hrun, ha⟩ := hp h
  exact ⟨hlooks, a, hrun, hP a ha⟩

theorem Quiet.bind (hp : Quiet view o P p) (hf : ∀ a, P a → Quiet view o P' (f a)) :
    Quiet view o P' (p >>= f) := by
  intro h
  obtain ⟨hlooks, a, ha, hP⟩ := hp h
  obtain ⟨hlooks', hreturn⟩ := hf a hP (run o h p).2
  rw [bind_eq, run_bind]
  cases hrun : run o h p with
  | mk x g =>
    rw [hrun] at ha hlooks hlooks' hreturn
    obtain rfl : x = .ok a := ha
    exact ⟨hlooks'.trans hlooks, hreturn⟩

/-- An operation that the view hides, and what follows it. -/
theorem quiet_call {op : Op} {k : Res op → Program Op Res ε α}
    (hview : ∀ h, view ⟨op, o h op⟩ = none) (hk : ∀ h, Quiet view o P (k (o h op))) :
    Quiet view o P (call op k) := by
  intro h
  obtain ⟨hlooks, hreturn⟩ := hk h (h ++ [⟨op, o h op⟩])
  exact ⟨hlooks.trans (LooksLike.concat_left rfl (hview h)), hreturn⟩

/-- A hidden part of the first program. -/
theorem Quiet.matches_left (hp : Quiet view o P p)
    (hf : ∀ a, P a → Matches view o o' R' (f a) q') : Matches view o o' R' (p >>= f) q' := by
  intro h h' hh
  obtain ⟨hlooks, a, ha, hP⟩ := hp h
  have hrest := hf a hP (run o h p).2 h' (hlooks.trans hh)
  rw [bind_eq, run_bind]
  cases hrun : run o h p with
  | mk x g =>
    rw [hrun] at ha hrest
    obtain rfl : x = .ok a := ha
    exact hrest

/-- A hidden part of the second program. -/
theorem Quiet.matches_right {g : α → Program Op Res ε β'} (hp : Quiet view o' P p)
    (hg : ∀ a, P a → Matches view o o' R' q (g a)) : Matches view o o' R' q (p >>= g) := by
  intro h h' hh
  obtain ⟨hlooks, a, ha, hP⟩ := hp h'
  have hrest := hg a hP h (run o' h' p).2 (hh.trans hlooks.symm)
  rw [bind_eq, run_bind]
  cases hrun : run o' h' p with
  | mk x h₂ =>
    rw [hrun] at ha hrest
    obtain rfl : x = .ok a := ha
    exact hrest

/-- Two hidden parts. -/
theorem Quiet.matches {P₂ : α' → Prop} (hp : Quiet view o P p) (hp' : Quiet view o' P₂ p') :
    Matches view o o' (fun a a' => P a ∧ P₂ a') p p' := by
  intro h h' hh
  obtain ⟨hlooks, a, ha, hP⟩ := hp h
  obtain ⟨hlooks', a', ha', hP'⟩ := hp' h'
  refine ⟨hlooks.trans (hh.trans hlooks'.symm), ?_⟩
  rw [ha, ha']
  exact .ok ⟨hP, hP'⟩

/-- A program that is hidden because all of its operations are. -/
theorem Uses.looksLike {S : Op → Prop} (hS : ∀ op, S op → ∀ r, view ⟨op, r⟩ = none) :
    ∀ {p : Program Op Res ε α} {h : List (Event Op Res)}, p.Uses S →
      LooksLike view (run o h p).2 h
  | pure _, _, _ => rfl
  | raise _, _, _ => rfl
  | call op k, h, hp => by
    have hrest := Uses.looksLike hS (p := k (o h op)) (h := h ++ [⟨op, o h op⟩]) (hp.2 _)
    exact hrest.trans (LooksLike.concat_left rfl (hS op hp.1 _))

/-- A hidden program that raises nothing. -/
theorem Uses.quiet {S : Op → Prop} (hS : ∀ op, S op → ∀ r, view ⟨op, r⟩ = none) (hp : p.Uses S)
    (hraises : RaisesOnly o (fun _ => False) p) : Quiet view o (fun _ => True) p := by
  intro h
  refine ⟨hp.looksLike hS, ?_⟩
  cases hrun : (run o h p).1 with
  | ok a => exact ⟨a, rfl, trivial⟩
  | error e => exact (hraises h e hrun).elim

end Rules

end Program
