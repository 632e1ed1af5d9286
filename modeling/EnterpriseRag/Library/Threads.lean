import EnterpriseRag.Library.Program

/-!
# Programs side by side

The programs of many clients over one shared state. Each operation is atomic, a client may
arrive or die at any time, and in between the operations of the others come in any order.

`Keeps` follows one program with a ghost state. Here the ghost state is what a program knows
of the shared state. `Run.kept` is the rule : if what the programs know is true of the state
they start in, becomes true by their own operations and stays true under the operations of the
others, then an invariant that every allowed operation keeps holds after every run. `Run.frame`
is about what the operations of other clients leave alone.
-/

namespace Program

/-- A shared state, and the programs under way with their clients. -/
structure Threads (Op : Type) (Res : Op → Type) (ε α ω σ : Type) where
  state : σ
  pool : List (ω × Program Op Res ε α)

namespace Threads

variable {Op : Type} {Res : Op → Type} {ε α ω σ : Type}

section Runs

variable (start : ω → Program Op Res ε α) (handle : σ → (op : Op) → Res op → σ → Prop)

/-- A step of a client. `handle` says what an operation may answer and leave. -/
inductive Step : ω → Threads Op Res ε α ω σ → Threads Op Res ε α ω σ → Prop
  | arrive (w : ω) (s : σ) (pool : List (ω × Program Op Res ε α)) :
    Step w ⟨s, pool⟩ ⟨s, pool ++ [(w, start w)]⟩
  | answer (w : ω) (s s' : σ) (first rest : List (ω × Program Op Res ε α)) (op : Op)
    (k : Res op → Program Op Res ε α) (r : Res op) (h : handle s op r s') :
    Step w ⟨s, first ++ (w, call op k) :: rest⟩ ⟨s', first ++ (w, k r) :: rest⟩
  | stop (w : ω) (s : σ) (first rest : List (ω × Program Op Res ε α))
    (p : Program Op Res ε α) : Step w ⟨s, first ++ (w, p) :: rest⟩ ⟨s, first ++ rest⟩

/-- Steps one after the other, with their clients. -/
inductive Run : List ω → Threads Op Res ε α ω σ → Threads Op Res ε α ω σ → Prop
  | nil (t : Threads Op Res ε α ω σ) : Run [] t t
  | cons {w : ω} {ws : List ω} {t u v : Threads Op Res ε α ω σ} (h : Step start handle w t u)
    (hrest : Run ws u v) : Run (w :: ws) t v

end Runs

variable {start : ω → Program Op Res ε α} {handle : σ → (op : Op) → Res op → σ → Prop}
  {t u v : Threads Op Res ε α ω σ} {w : ω} {ws ws' : List ω}

theorem Run.append (h : Run start handle ws t u) (h' : Run start handle ws' u v) :
    Run start handle (ws ++ ws') t v := by
  induction h with
  | nil t => exact h'
  | cons hstep _ ih => exact .cons hstep (ih h')

/-- The answer to the one program under way, and what follows. -/
theorem Run.alone {s s' : σ} {op : Op} {k : Res op → Program Op Res ε α} {r : Res op}
    (h : handle s op r s') (hrest : Run start handle ws ⟨s', [(w, k r)]⟩ v) :
    Run start handle (w :: ws) ⟨s, [(w, call op k)]⟩ v :=
  .cons (.answer w s s' [] [] op k r h) hrest

/-- What every operation keeps, whoever performs it. -/
theorem Run.stable {P : σ → Prop} (hP : ∀ s op r s', P s → handle s op r s' → P s')
    (h : Run start handle ws t u) : P t.state → P u.state := by
  induction h with
  | nil t => exact id
  | cons hstep _ ih =>
    refine fun ht => ih ?_
    cases hstep with
    | arrive s pool => exact ht
    | answer s s' first rest op k r hop => exact hP s op r s' ht hop
    | stop s first rest p => exact ht

/-! ## The rule -/

section Rule

variable {γ : Type*} {Inv : σ → Prop} {Sound : γ → σ → Prop} {allowed : ω → γ → Op → Prop}
  {next : γ → (op : Op) → Res op → γ} {Q : ω → γ → Except ε α → Prop}

/-- The invariant holds, and every program knows enough for what it is about to do. -/
def Kept (Inv : σ → Prop) (Sound : γ → σ → Prop) (allowed : ω → γ → Op → Prop)
    (next : γ → (op : Op) → Res op → γ) (Q : ω → γ → Except ε α → Prop)
    (t : Threads Op Res ε α ω σ) : Prop :=
  Inv t.state ∧
    ∀ e ∈ t.pool, ∃ g, Sound g t.state ∧ Keeps (allowed e.1) next (Q e.1) g e.2

variable
  (hstart : ∀ w s, Inv s → ∃ g, Sound g s ∧ Keeps (allowed w) next (Q w) g (start w))
  (hown : ∀ w g s op r s', Inv s → Sound g s → allowed w g op → handle s op r s' →
    Inv s' ∧ Sound (next g op r) s')
  (hother : ∀ w g s op r s', Inv s → Sound g s → allowed w g op → handle s op r s' →
    ∀ g', Sound g' s → Sound g' s')

include hstart hown hother

theorem Step.kept (h : Step start handle w t u) (hk : Kept Inv Sound allowed next Q t) :
    Kept Inv Sound allowed next Q u := by
  cases h with
  | arrive s pool =>
    obtain ⟨hinv, hpool⟩ := hk
    refine ⟨hinv, fun e he => ?_⟩
    rcases List.mem_append.1 he with he | he
    · exact hpool e he
    · rw [List.mem_singleton.1 he]
      exact hstart w s hinv
  | answer s s' first rest op k r hop =>
    obtain ⟨hinv, hpool⟩ := hk
    obtain ⟨g, hg, hallowed, hnext⟩ := hpool (w, call op k) (by simp)
    obtain ⟨hinv', hg'⟩ := hown w g s op r s' hinv hg hallowed hop
    refine ⟨hinv', fun e he => ?_⟩
    rcases List.mem_append.1 he with he | he
    · obtain ⟨g', hsound, hkeeps⟩ := hpool e (by simp [he])
      exact ⟨g', hother w g s op r s' hinv hg hallowed hop g' hsound, hkeeps⟩
    · rcases List.mem_cons.1 he with rfl | he
      · exact ⟨next g op r, hg', hnext r⟩
      · obtain ⟨g', hsound, hkeeps⟩ := hpool e (by simp [he])
        exact ⟨g', hother w g s op r s' hinv hg hallowed hop g' hsound, hkeeps⟩
  | stop s first rest p =>
    refine ⟨hk.1, fun e he => hk.2 e ?_⟩
    rcases List.mem_append.1 he with he | he
    · simp [he]
    · simp [he]

theorem Run.kept (h : Run start handle ws t u) (hk : Kept Inv Sound allowed next Q t) :
    Kept Inv Sound allowed next Q u := by
  induction h with
  | nil t => exact hk
  | cons hstep _ ih => exact ih (hstep.kept hstart hown hother hk)

/-- What the operations of other clients leave alone stays as it is while they run. -/
theorem Run.frame {β : Type*} {view : σ → β} {mine : ω → Prop}
    (hframe : ∀ w g s op r s', ¬mine w → Inv s → Sound g s → allowed w g op →
      handle s op r s' → view s' = view s)
    (h : Run start handle ws t u) (hk : Kept Inv Sound allowed next Q t)
    (hws : ∀ w ∈ ws, ¬mine w) : view u.state = view t.state := by
  induction h with
  | nil t => rfl
  | @cons w ws t u v hstep _ ih =>
    have hrest := ih (hstep.kept hstart hown hother hk) fun w' hw' =>
      hws w' (List.mem_cons_of_mem w hw')
    rw [hrest]
    cases hstep with
    | arrive s pool => rfl
    | answer s s' first rest op k r hop =>
      obtain ⟨g, hg, hallowed, -⟩ := hk.2 (w, call op k) (by simp)
      exact hframe w g s op r s' (hws w List.mem_cons_self) hk.1 hg hallowed hop
    | stop s first rest p => rfl

end Rule

end Threads

end Program
