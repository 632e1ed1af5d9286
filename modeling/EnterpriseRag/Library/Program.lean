import Mathlib.Algebra.GroupWithZero.Nat
import Mathlib.Data.List.Basic

/-!
# Programs that use their surroundings

A `Program` is what a piece of code does next : it returns, raises, or performs an
operation `op` and continues with the response, a value of `Res op`. It is a tree, one
child for each response, so what the code does is settled and what its surroundings answer
is not.

`run` answers the operations of a program by an `Oracle`, any function of what happened
before. `Keeps` is the rule of reasoning. A ghost state `g` follows the run through
`next`; `p.Keeps allowed next Q g` says that from `g`, whatever the responses, every
operation is `allowed` where it is performed, and `Q` holds of the ghost state and the
result at the end. `keeps_bind` and `keeps_tryCatch` take a program apart, `Keeps.run`
reads the conclusion off a run.
-/

universe u

/-- Code that returns, raises or performs an operation. -/
inductive Program (Op : Type) (Res : Op → Type) (ε : Type) (α : Type)
  | pure (a : α)
  | raise (e : ε)
  | call (op : Op) (k : Res op → Program Op Res ε α)

namespace Program

variable {Op : Type} {Res : Op → Type} {ε α β : Type}

def bind : Program Op Res ε α → (α → Program Op Res ε β) → Program Op Res ε β
  | pure a, f => f a
  | raise e, _ => raise e
  | call op k, f => call op fun r => bind (k r) f

/-- `try … except`, for the exceptions the handler does not raise again. -/
def tryCatch : Program Op Res ε α → (ε → Program Op Res ε α) → Program Op Res ε α
  | pure a, _ => pure a
  | raise e, handler => handler e
  | call op k, handler => call op fun r => tryCatch (k r) handler

/-- `try … finally`. What the last part raises is raised in place of the result. -/
def tryFinally : Program Op Res ε α → Program Op Res ε Unit → Program Op Res ε α
  | pure a, last => last.bind fun _ => pure a
  | raise e, last => last.bind fun _ => raise e
  | call op k, last => call op fun r => tryFinally (k r) last

instance : Monad (Program Op Res ε) where
  pure := pure
  bind := bind

@[simp] theorem pure_eq (a : α) : (Pure.pure a : Program Op Res ε α) = pure a :=
  rfl

@[simp] theorem bind_eq (p : Program Op Res ε α) (f : α → Program Op Res ε β) :
    p >>= f = p.bind f :=
  rfl

/-- Perform an operation and return the response. -/
def perform (op : Op) : Program Op Res ε (Res op) :=
  call op pure

/-- Return, or raise. -/
def orRaise : Except ε α → Program Op Res ε α
  | .ok a => pure a
  | .error e => raise e

/-- Perform an operation, and return or raise what `f` makes of the response. -/
def ask (op : Op) (f : Res op → Except ε α) : Program Op Res ε α :=
  call op fun r => orRaise (f r)

/-- Perform an operation, and go on with what `f` makes of the response either way. -/
def attempt (op : Op) (f : Res op → Except ε α) : Program Op Res ε (Except ε α) :=
  call op fun r => pure (f r)

/-! ## Runs -/

/-- An operation and its response. -/
abbrev Event (Op : Type) (Res : Op → Type) : Type :=
  (op : Op) × Res op

/-- Surroundings : a response to every operation, after any history. -/
abbrev Oracle (Op : Type) (Res : Op → Type) : Type :=
  List (Event Op Res) → (op : Op) → Res op

/-- The result of a program and the history after it. -/
def run (o : Oracle Op Res) :
    List (Event Op Res) → Program Op Res ε α → Except ε α × List (Event Op Res)
  | h, pure a => (.ok a, h)
  | h, raise e => (.error e, h)
  | h, call op k => run o (h ++ [⟨op, o h op⟩]) (k (o h op))

theorem run_bind {o : Oracle Op Res} {f : α → Program Op Res ε β} :
    ∀ {p : Program Op Res ε α} {h : List (Event Op Res)},
      run o h (p.bind f) =
        match run o h p with
        | (.ok a, h') => run o h' (f a)
        | (.error e, h') => (.error e, h')
  | pure _, _ => rfl
  | raise _, _ => rfl
  | call op k, h => run_bind (p := k (o h op))

theorem run_tryCatch {o : Oracle Op Res} {handler : ε → Program Op Res ε α} :
    ∀ {p : Program Op Res ε α} {h : List (Event Op Res)},
      run o h (p.tryCatch handler) =
        match run o h p with
        | (.ok a, h') => (.ok a, h')
        | (.error e, h') => run o h' (handler e)
  | pure _, _ => rfl
  | raise _, _ => rfl
  | call op k, h => run_tryCatch (p := k (o h op))

theorem run_tryFinally {o : Oracle Op Res} {last : Program Op Res ε Unit} :
    ∀ {p : Program Op Res ε α} {h : List (Event Op Res)},
      run o h (p.tryFinally last) =
        match run o (run o h p).2 last with
        | (.ok _, h') => ((run o h p).1, h')
        | (.error e, h') => (.error e, h')
  | pure a, h => by
    rw [tryFinally, run_bind, run]
    rcases run o h last with ⟨_ | _, h'⟩ <;> rfl
  | raise e, h => by
    rw [tryFinally, run_bind, run]
    rcases run o h last with ⟨_ | _, h'⟩ <;> rfl
  | call op k, h => run_tryFinally (p := k (o h op))

/-- A run only adds to the history. -/
theorem prefix_run {o : Oracle Op Res} :
    ∀ {p : Program Op Res ε α} {h : List (Event Op Res)}, h <+: (run o h p).2
  | pure _, _ => List.prefix_rfl
  | raise _, _ => List.prefix_rfl
  | call op k, h => (List.prefix_append _ _).trans (prefix_run (p := k (o h op)))

/-- Every response of a run is the oracle's. -/
theorem answered_of_mem_run {o : Oracle Op Res} {event : Event Op Res} :
    ∀ {p : Program Op Res ε α} {h : List (Event Op Res)}, event ∈ (run o h p).2 →
      event ∈ h ∨ ∃ h', event.2 = o h' event.1
  | pure _, _, hevent => Or.inl hevent
  | raise _, _, hevent => Or.inl hevent
  | call op k, h, hevent => by
    rcases answered_of_mem_run (p := k (o h op)) hevent with hevent | hevent
    · rcases List.mem_append.1 hevent with hevent | hevent
      · exact Or.inl hevent
      · obtain rfl := List.mem_singleton.1 hevent
        exact Or.inr ⟨h, rfl⟩
    · exact Or.inr hevent

/-- What a program in two parts returns. -/
theorem run_bind_eq_ok {o : Oracle Op Res} {f : α → Program Op Res ε β} {p : Program Op Res ε α}
    {h : List (Event Op Res)} {b : β} :
    (run o h (p >>= f)).1 = .ok b ↔
      ∃ a, (run o h p).1 = .ok a ∧ (run o (run o h p).2 (f a)).1 = .ok b := by
  rw [bind_eq, run_bind]
  split
  · rename_i a h' hrun
    simp [hrun]
  · rename_i e h' hrun
    simp [hrun]

/-- A run of a program in two parts that returns. -/
theorem run_bind_eq {o : Oracle Op Res} {f : α → Program Op Res ε β} {p : Program Op Res ε α}
    {h h' : List (Event Op Res)} {b : β} (hrun : run o h (p >>= f) = (.ok b, h')) :
    ∃ a h₁, run o h p = (.ok a, h₁) ∧ run o h₁ (f a) = (.ok b, h') := by
  rw [bind_eq, run_bind] at hrun
  cases hpart : run o h p with
  | mk x h₁ =>
    rw [hpart] at hrun
    cases x with
    | error e => exact nomatch congrArg Prod.fst hrun
    | ok a => exact ⟨a, h₁, rfl, hrun⟩

/-- A program whose result is made into another. -/
theorem run_bind_return {o : Oracle Op Res} {f : α → β} {p : Program Op Res ε α}
    {h : List (Event Op Res)} :
    run o h (p >>= fun a => Pure.pure (f a)) = ((run o h p).1.map f, (run o h p).2) := by
  rw [bind_eq, run_bind]
  rcases run o h p with ⟨_ | _, h'⟩ <;> rfl

/-- What happens in a program in two parts. -/
theorem mem_run_bind {o : Oracle Op Res} {f : α → Program Op Res ε β} {p : Program Op Res ε α}
    {h : List (Event Op Res)} {event : Event Op Res} :
    event ∈ (run o h (p >>= f)).2 ↔ event ∈ (run o h p).2 ∨
      ∃ a, (run o h p).1 = .ok a ∧ event ∈ (run o (run o h p).2 (f a)).2 := by
  rw [bind_eq, run_bind]
  split
  · rename_i a h' hrun
    have hmono : event ∈ h' → event ∈ (run o h' (f a)).2 := fun hevent =>
      prefix_run.subset hevent
    simpa [hrun] using hmono
  · rename_i e h' hrun
    simp [hrun]

/-- An operation that the program returns or raises the response of. -/
theorem run_ask {o : Oracle Op Res} {op : Op} {f : Res op → Except ε α}
    {h : List (Event Op Res)} :
    run o h (ask op f) = (f (o h op), h ++ [⟨op, o h op⟩]) := by
  show run o _ (orRaise (f (o h op))) = _
  cases f (o h op) <;> rfl

/-- A program and an operation that is performed however it ends. -/
theorem run_tryFinally_ask {o : Oracle Op Res} {p : Program Op Res ε α} {op : Op}
    {f : Res op → Except ε Unit} {h : List (Event Op Res)} :
    run o h (p.tryFinally (ask op f)) =
      (f (o (run o h p).2 op) >>= fun _ => (run o h p).1,
        (run o h p).2 ++ [⟨op, o (run o h p).2 op⟩]) := by
  rw [run_tryFinally, run_ask]
  cases f (o (run o h p).2 op) <;> rfl

/-- An operation that the program returns or raises the response of, and what follows. -/
theorem run_ask_bind {o : Oracle Op Res} {op : Op} {f : Res op → Except ε α}
    {g : α → Program Op Res ε β} {h : List (Event Op Res)} :
    run o h (ask op f >>= g) =
      match f (o h op) with
      | .ok a => run o (h ++ [⟨op, o h op⟩]) (g a)
      | .error e => (.error e, h ++ [⟨op, o h op⟩]) := by
  show run o _ ((orRaise (f (o h op))).bind g) = _
  cases f (o h op) <;> rfl

/-- An operation whose failure the program handles, and what follows. -/
theorem run_attempt_bind {o : Oracle Op Res} {op : Op} {f : Res op → Except ε α}
    {g : Except ε α → Program Op Res ε β} {h : List (Event Op Res)} :
    run o h (attempt op f >>= g) = run o (h ++ [⟨op, o h op⟩]) (g (f (o h op))) :=
  rfl

/-! ## Ghost states -/

section Keeps

variable {γ : Type u} {allowed : γ → Op → Prop} {next : γ → (op : Op) → Res op → γ}
  {Q Q' : γ → Except ε α → Prop}

/-- Every operation is allowed where it is performed, and `Q` holds at the end. -/
def Keeps (allowed : γ → Op → Prop) (next : γ → (op : Op) → Res op → γ)
    (Q : γ → Except ε α → Prop) : γ → Program Op Res ε α → Prop
  | g, pure a => Q g (.ok a)
  | g, raise e => Q g (.error e)
  | g, call op k => allowed g op ∧ ∀ r, Keeps allowed next Q (next g op r) (k r)

@[simp] theorem keeps_pure {g : γ} {a : α} :
    Keeps allowed next Q g (pure a : Program Op Res ε α) ↔ Q g (.ok a) :=
  Iff.rfl

@[simp] theorem keeps_raise {g : γ} {e : ε} :
    Keeps allowed next Q g (raise e : Program Op Res ε α) ↔ Q g (.error e) :=
  Iff.rfl

@[simp] theorem keeps_call {g : γ} {op : Op} {k : Res op → Program Op Res ε α} :
    Keeps allowed next Q g (call op k) ↔
      allowed g op ∧ ∀ r, Keeps allowed next Q (next g op r) (k r) :=
  Iff.rfl

@[simp] theorem keeps_perform {g : γ} {op : Op} {Q : γ → Except ε (Res op) → Prop} :
    Keeps allowed next Q g (perform op) ↔ allowed g op ∧ ∀ r, Q (next g op r) (.ok r) :=
  Iff.rfl

@[simp] theorem keeps_orRaise {g : γ} {x : Except ε α} :
    Keeps allowed next Q g (orRaise x : Program Op Res ε α) ↔ Q g x := by
  cases x <;> rfl

@[simp] theorem keeps_ask {g : γ} {op : Op} {f : Res op → Except ε α} :
    Keeps allowed next Q g (ask op f) ↔ allowed g op ∧ ∀ r, Q (next g op r) (f r) := by
  simp [ask]

theorem Keeps.mono (hQ : ∀ g x, Q g x → Q' g x) :
    ∀ {p : Program Op Res ε α} {g : γ}, Keeps allowed next Q g p → Keeps allowed next Q' g p
  | pure _, _, h => hQ _ _ h
  | raise _, _, h => hQ _ _ h
  | call _ _, _, h => ⟨h.1, fun r => (h.2 r).mono hQ⟩

/-- A program in two parts : the second takes over where the first returns. -/
theorem keeps_bind {Q : γ → Except ε β → Prop} {f : α → Program Op Res ε β} :
    ∀ {p : Program Op Res ε α} {g : γ},
      Keeps allowed next Q g (p.bind f) ↔
        Keeps allowed next
          (fun g x => x.casesOn (fun e => Q g (.error e)) fun a => Keeps allowed next Q g (f a))
          g p
  | pure _, _ => Iff.rfl
  | raise _, _ => Iff.rfl
  | call _ k, _ => and_congr_right fun _ => forall_congr' fun r => keeps_bind (p := k r)

/-- The rule for a program in two parts, by what holds between them. -/
theorem Keeps.bind {Q : γ → Except ε β → Prop} {R : γ → Except ε α → Prop}
    {p : Program Op Res ε α} {f : α → Program Op Res ε β} {g : γ} (hp : Keeps allowed next R g p)
    (herror : ∀ g e, R g (.error e) → Q g (.error e))
    (hok : ∀ g a, R g (.ok a) → Keeps allowed next Q g (f a)) :
    Keeps allowed next Q g (p >>= f) := by
  rw [bind_eq, keeps_bind]
  refine hp.mono fun g x hx => ?_
  cases x with
  | error e => exact herror g e hx
  | ok a => exact hok g a hx

/-- The rule for an operation and what follows it. -/
theorem keeps_ask_bind {Q : γ → Except ε β → Prop} {op : Op} {h : Res op → Except ε α}
    {f : α → Program Op Res ε β} {g : γ} (hop : allowed g op)
    (herror : ∀ r e, h r = .error e → Q (next g op r) (.error e))
    (hok : ∀ r a, h r = .ok a → Keeps allowed next Q (next g op r) (f a)) :
    Keeps allowed next Q g (ask op h >>= f) := by
  rw [bind_eq, keeps_bind, keeps_ask]
  refine ⟨hop, fun r => ?_⟩
  cases hr : h r with
  | error e => exact herror r e hr
  | ok a => exact hok r a hr

/-- The rule for an operation whose failure the program handles itself. -/
theorem keeps_attempt_bind {Q : γ → Except ε β → Prop} {op : Op} {h : Res op → Except ε α}
    {f : Except ε α → Program Op Res ε β} {g : γ} (hop : allowed g op)
    (hnext : ∀ r, Keeps allowed next Q (next g op r) (f (h r))) :
    Keeps allowed next Q g (attempt op h >>= f) :=
  ⟨hop, hnext⟩

/-- A computation without operations, and what follows it. -/
theorem keeps_orRaise_bind {Q : γ → Except ε β → Prop} {x : Except ε α}
    {f : α → Program Op Res ε β} {g : γ} (herror : ∀ e, x = .error e → Q g (.error e))
    (hok : ∀ a, x = .ok a → Keeps allowed next Q g (f a)) :
    Keeps allowed next Q g (orRaise x >>= f) := by
  cases x with
  | error e => exact herror e rfl
  | ok a => exact hok a rfl

/-- A guarded program : the handler takes over where it raises. -/
theorem keeps_tryCatch {handler : ε → Program Op Res ε α} :
    ∀ {p : Program Op Res ε α} {g : γ},
      Keeps allowed next Q g (p.tryCatch handler) ↔
        Keeps allowed next
          (fun g x => x.casesOn (fun e => Keeps allowed next Q g (handler e)) fun a => Q g (.ok a))
          g p
  | pure _, _ => Iff.rfl
  | raise _, _ => Iff.rfl
  | call _ k, _ => and_congr_right fun _ => forall_congr' fun r => keeps_tryCatch (p := k r)

/-- The rule for `try … finally`, by what holds between the parts. -/
theorem Keeps.tryFinally {R : γ → Except ε α → Prop} {last : Program Op Res ε Unit}
    (hlast : ∀ g x, R g x → Keeps allowed next
      (fun g y => y.casesOn (fun e => Q g (.error e)) fun _ => Q g x) g last) :
    ∀ {p : Program Op Res ε α} {g : γ}, Keeps allowed next R g p →
      Keeps allowed next Q g (p.tryFinally last)
  | pure _, g, h => keeps_bind.2 (hlast g _ h)
  | raise _, g, h => keeps_bind.2 ((hlast g _ h).mono fun g y hy => by cases y <;> exact hy)
  | call _ _, _, h => ⟨h.1, fun r => Keeps.tryFinally hlast (h.2 r)⟩

/-! ### Programs by the operations they use -/

/-- Every operation of the program is one of `S`. -/
def Uses (S : Op → Prop) : Program Op Res ε α → Prop
  | pure _ => True
  | raise _ => True
  | call op k => S op ∧ ∀ r, Uses S (k r)

variable {S S' : Op → Prop}

theorem uses_pure (a : α) : (Pure.pure a : Program Op Res ε α).Uses S :=
  trivial

theorem uses_orRaise (x : Except ε α) : (orRaise x : Program Op Res ε α).Uses S := by
  cases x <;> trivial

theorem uses_ask {op : Op} {f : Res op → Except ε α} (h : S op) :
    (ask op f : Program Op Res ε α).Uses S :=
  ⟨h, fun r => uses_orRaise (f r)⟩

theorem uses_attempt {op : Op} {f : Res op → Except ε α} (h : S op) :
    (attempt op f : Program Op Res ε (Except ε α)).Uses S :=
  ⟨h, fun _ => trivial⟩

theorem Uses.mono (hS : ∀ op, S op → S' op) :
    ∀ {p : Program Op Res ε α}, p.Uses S → p.Uses S'
  | pure _, _ => trivial
  | raise _, _ => trivial
  | call _ _, h => ⟨hS _ h.1, fun r => (h.2 r).mono hS⟩

theorem Uses.bind {f : α → Program Op Res ε β} (hf : ∀ a, (f a).Uses S) :
    ∀ {p : Program Op Res ε α}, p.Uses S → (p >>= f).Uses S
  | pure a, _ => hf a
  | raise _, _ => trivial
  | call _ k, h => ⟨h.1, fun r => Uses.bind hf (p := k r) (h.2 r)⟩

theorem Uses.tryCatch {handler : ε → Program Op Res ε α} (hhandler : ∀ e, (handler e).Uses S) :
    ∀ {p : Program Op Res ε α}, p.Uses S → (p.tryCatch handler).Uses S
  | pure _, _ => trivial
  | raise e, _ => hhandler e
  | call _ k, h => ⟨h.1, fun r => Uses.tryCatch hhandler (p := k r) (h.2 r)⟩

/-- A run performs no other operation. -/
theorem Uses.mem_run {o : Oracle Op Res} {event : Event Op Res} :
    ∀ {p : Program Op Res ε α} {h : List (Event Op Res)}, p.Uses S →
      event ∈ (Program.run o h p).2 → event ∈ h ∨ S event.1
  | pure _, _, _, hevent => Or.inl hevent
  | raise _, _, _, hevent => Or.inl hevent
  | call op k, h, hp, hevent => by
    rcases Uses.mem_run (p := k (o h op)) (hp.2 _) hevent with hevent | hevent
    · rcases List.mem_append.1 hevent with hevent | hevent
      · exact Or.inl hevent
      · obtain rfl := List.mem_singleton.1 hevent
        exact Or.inr hp.1
    · exact Or.inr hevent

/-- An operation that the first part does not use stands in the second. -/
theorem Uses.exists_run_bind {o : Oracle Op Res} {event : Event Op Res} {p : Program Op Res ε α}
    {f : α → Program Op Res ε β} {h : List (Event Op Res)} (hp : p.Uses S) (hS : ¬S event.1)
    (hh : event ∉ h) (hevent : event ∈ (Program.run o h (p >>= f)).2) :
    ∃ a h', Program.run o h p = (.ok a, h') ∧ event ∉ h' ∧
      Program.run o h (p >>= f) = Program.run o h' (f a) := by
  have hrun : Program.run o h (p >>= f) = _ := run_bind
  have hfirst : event ∉ (Program.run o h p).2 := fun hevent =>
    (hp.mem_run hevent).elim hh hS
  rw [hrun] at hevent ⊢
  cases hpart : Program.run o h p with
  | mk x h' =>
    rw [hpart] at hevent hfirst
    cases x with
    | error e => exact absurd hevent hfirst
    | ok a => exact ⟨a, h', rfl, hfirst, rfl⟩

/-- A rule with a ghost state that never changes is about what is used. -/
theorem Keeps.uses {Q : Unit → Except ε α → Prop} :
    ∀ {p : Program Op Res ε α},
      Keeps (fun _ op => S op) (fun _ _ _ => ()) Q () p → p.Uses S
  | pure _, _ => trivial
  | raise _, _ => trivial
  | call _ _, h => ⟨h.1, fun r => (h.2 r).uses⟩

/-- What every operation of `S` keeps, a program that uses no other keeps. -/
theorem Uses.keeps {I : γ → Prop}
    (h : ∀ g op, S op → I g → allowed g op ∧ ∀ r, I (next g op r)) :
    ∀ {p : Program Op Res ε α} {g : γ}, p.Uses S → I g → Keeps allowed next (fun g _ => I g) g p
  | pure _, _, _, hI => hI
  | raise _, _, _, hI => hI
  | call op _, g, hp, hI =>
    ⟨(h g op hp.1 hI).1, fun r => (hp.2 r).keeps h ((h g op hp.1 hI).2 r)⟩

/-! ### Programs by their first operation -/

/-- The program begins with an operation of `S`. -/
def Starts (S : Op → Prop) : Program Op Res ε α → Prop
  | call op _ => S op
  | _ => False

theorem starts_ask {op : Op} {f : Res op → Except ε α} (h : S op) :
    (ask op f : Program Op Res ε α).Starts S :=
  h

theorem Starts.bind {f : α → Program Op Res ε β} :
    ∀ {p : Program Op Res ε α}, p.Starts S → (p >>= f).Starts S
  | call _ _, h => h

theorem Starts.tryCatch {handler : ε → Program Op Res ε α} :
    ∀ {p : Program Op Res ε α}, p.Starts S → (p.tryCatch handler).Starts S
  | call _ _, h => h

theorem Starts.exists_mem_run {o : Oracle Op Res} {h : List (Event Op Res)} :
    ∀ {p : Program Op Res ε α}, p.Starts S → ∃ event ∈ (Program.run o h p).2, S event.1
  | call op k, hS =>
    ⟨⟨op, o h op⟩, (prefix_run (p := k (o h op))).subset
      (List.mem_append_right h (List.mem_singleton_self _)), hS⟩

/-! ### Programs by what they return -/

/-- Whatever the responses, a value the program returns is one of `P`. -/
def Returns (P : α → Prop) : Program Op Res ε α → Prop
  | pure a => P a
  | raise _ => True
  | call _ k => ∀ r, Returns P (k r)

theorem returns_pure {P : α → Prop} {a : α} (h : P a) :
    (Pure.pure a : Program Op Res ε α).Returns P :=
  h

theorem returns_true : ∀ p : Program Op Res ε α, p.Returns fun _ => True
  | pure _ => trivial
  | raise _ => trivial
  | call _ k => fun r => returns_true (k r)

theorem Returns.mono {P P' : α → Prop} (hP : ∀ a, P a → P' a) :
    ∀ {p : Program Op Res ε α}, p.Returns P → p.Returns P'
  | pure a, h => hP a h
  | raise _, _ => trivial
  | call _ _, h => fun r => (h r).mono hP

theorem Returns.bind {P : α → Prop} {P' : β → Prop} {f : α → Program Op Res ε β}
    (hf : ∀ a, P a → (f a).Returns P') :
    ∀ {p : Program Op Res ε α}, p.Returns P → (p >>= f).Returns P'
  | pure a, h => hf a h
  | raise _, _ => trivial
  | call _ k, h => fun r => Returns.bind hf (p := k r) (h r)

theorem Returns.tryCatch {P : α → Prop} {handler : ε → Program Op Res ε α}
    (hhandler : ∀ e, (handler e).Returns P) :
    ∀ {p : Program Op Res ε α}, p.Returns P → (p.tryCatch handler).Returns P
  | pure _, h => h
  | raise e, _ => hhandler e
  | call _ k, h => fun r => Returns.tryCatch hhandler (p := k r) (h r)

theorem returns_orRaise {P : α → Prop} {x : Except ε α} (h : ∀ a, x = .ok a → P a) :
    (orRaise x : Program Op Res ε α).Returns P := by
  cases x with
  | error e => trivial
  | ok a => exact h a rfl

/-- A rule with a ghost state that never changes is about what is returned. -/
theorem Keeps.returns {P : α → Prop} {allowed : Unit → Op → Prop} :
    ∀ {p : Program Op Res ε α},
      Keeps allowed (fun _ _ _ => ()) (fun _ x => ∀ a, x = .ok a → P a) () p → p.Returns P
  | pure a, h => h a rfl
  | raise _, _ => trivial
  | call _ _, h => fun r => (h.2 r).returns

/-! ### Programs by their cost -/

/-- Whatever the responses, a run can be paid from `n`, and one that returns `a` leaves
`left a`. -/
def Pays (cost : Op → ℕ) : ℕ → (α → ℕ) → Program Op Res ε α → Prop
  | n, left, pure a => left a ≤ n
  | _, _, raise _ => True
  | n, left, call op k => ∃ m, cost op + m ≤ n ∧ ∀ r, Pays cost m left (k r)

/-- Whatever the responses, the operations of a run cost at most `n` in all. -/
def CostAtMost (cost : Op → ℕ) (n : ℕ) (p : Program Op Res ε α) : Prop :=
  p.Pays cost n fun _ => 0

variable {cost : Op → ℕ} {m n : ℕ} {left : α → ℕ}

theorem pays_pure {a : α} (h : left a ≤ n) : (Pure.pure a : Program Op Res ε α).Pays cost n left :=
  h

/-- An operation, and what follows it. -/
theorem pays_ask_bind {op : Op} {f : Res op → Except ε α} {g : α → Program Op Res ε β}
    {left : β → ℕ} (hop : cost op + m ≤ n) (hg : ∀ a, (g a).Pays cost m left) :
    (ask op f >>= g).Pays cost n left := by
  refine ⟨m, hop, fun r => ?_⟩
  show ((orRaise (f r)).bind g).Pays cost m left
  cases f r with
  | error e => trivial
  | ok a => exact hg a

/-- A computation without operations, and what follows it. -/
theorem pays_orRaise_bind {x : Except ε α} {g : α → Program Op Res ε β} {left : β → ℕ}
    (hg : ∀ a, (g a).Pays cost n left) : (orRaise x >>= g).Pays cost n left := by
  cases x with
  | error e => trivial
  | ok a => exact hg a

theorem Pays.mono (hn : n ≤ m) :
    ∀ {p : Program Op Res ε α}, p.Pays cost n left → p.Pays cost m left
  | pure _, h => Nat.le_trans h hn
  | raise _, _ => trivial
  | call _ _, ⟨l, hl, h⟩ => ⟨l, Nat.le_trans hl hn, h⟩

/-- What the second part pays from is what the first part leaves. -/
theorem Pays.bind {f : α → Program Op Res ε β} {left' : β → ℕ}
    (hf : ∀ a, (f a).Pays cost (left a) left') :
    ∀ {n : ℕ} {p : Program Op Res ε α}, p.Pays cost n left → (p >>= f).Pays cost n left'
  | _, pure a, h => (hf a).mono h
  | _, raise _, _ => trivial
  | _, call _ k, ⟨l, hl, h⟩ => ⟨l, hl, fun r => Pays.bind hf (p := k r) (h r)⟩

/-- What is not spent is left. -/
theorem Pays.frame (m : ℕ) :
    ∀ {n : ℕ} {p : Program Op Res ε α}, p.Pays cost n left →
      p.Pays cost (n + m) fun a => left a + m
  | _, pure _, h => Nat.add_le_add_right h m
  | _, raise _, _ => trivial
  | _, call _ k, ⟨l, hl, h⟩ => ⟨l + m, by omega, fun r => Pays.frame m (p := k r) (h r)⟩

/-- Operations that cost nothing. -/
theorem Uses.costAtMost (hS : ∀ op, S op → cost op = 0) :
    ∀ {p : Program Op Res ε α}, p.Uses S → p.CostAtMost cost 0
  | pure _, _ => Nat.le_refl 0
  | raise _, _ => trivial
  | call _ k, h => ⟨0, Nat.le_of_eq (hS _ h.1), fun r => Uses.costAtMost hS (p := k r) (h.2 r)⟩

/-- The cost of what a run performs. -/
theorem Pays.run {o : Oracle Op Res} :
    ∀ {n : ℕ} {p : Program Op Res ε α} {h : List (Event Op Res)}, p.Pays cost n left →
      ((Program.run o h p).2.map fun event => cost event.1).sum ≤
        (h.map fun event => cost event.1).sum + n
  | _, pure _, _, _ => Nat.le_add_right _ _
  | _, raise _, _, _ => Nat.le_add_right _ _
  | _, call op k, h, ⟨l, hl, hk⟩ => by
    have hrest := Pays.run (o := o) (h := h ++ [⟨op, o h op⟩]) (hk (o h op))
    simp only [List.map_append, List.sum_append, List.map_singleton, List.sum_singleton] at hrest
    rw [Program.run]
    omega

/-- Of operations that all cost one, the cost counts them. -/
def callCost (p : Op → Bool) (op : Op) : ℕ :=
  if p op then 1 else 0

theorem sum_callCost (p : Op → Bool) (h : List (Event Op Res)) :
    (h.map fun event => callCost p event.1).sum = h.countP fun event => p event.1 := by
  induction h with
  | nil => rfl
  | cons event h ih =>
    rw [List.map_cons, List.sum_cons, ih, List.countP_cons, callCost, Nat.add_comm]

/-- The calls of a kind in a run. -/
theorem CostAtMost.countP_run {p : Op → Bool} {q : Program Op Res ε α} {o : Oracle Op Res}
    (hq : q.CostAtMost (callCost p) n) :
    ((Program.run o [] q).2.countP fun event => p event.1) ≤ n := by
  have hrun := Pays.run (o := o) (h := []) hq
  rwa [sum_callCost, List.map_nil, List.sum_nil, Nat.zero_add] at hrun

/-- Any program is right about nothing. -/
theorem keeps_of_forall {Q : γ → Except ε α → Prop} (hallowed : ∀ g op, allowed g op)
    (hQ : ∀ g x, Q g x) : ∀ {p : Program Op Res ε α} {g : γ}, Keeps allowed next Q g p
  | pure _, _ => hQ _ _
  | raise _, _ => hQ _ _
  | call _ _, _ => ⟨hallowed _ _, fun _ => keeps_of_forall hallowed hQ⟩

/-- What every operation of `S` keeps, with what is returned. -/
theorem Uses.keeps_returns {I : γ → Prop} {P : α → Prop}
    (h : ∀ g op, S op → I g → allowed g op ∧ ∀ r, I (next g op r)) :
    ∀ {p : Program Op Res ε α} {g : γ}, p.Uses S → p.Returns P → I g →
      Keeps allowed next (fun g x => I g ∧ ∀ a, x = .ok a → P a) g p
  | pure _, _, _, hP, hI => ⟨hI, fun _ hb => Except.ok.inj hb ▸ hP⟩
  | raise _, _, _, _, hI => ⟨hI, fun _ hb => nomatch hb⟩
  | call op _, g, hp, hP, hI =>
    ⟨(h g op hp.1 hI).1, fun r => (hp.2 r).keeps_returns h (hP r) ((h g op hp.1 hI).2 r)⟩

/-- What a run returns. -/
theorem Returns.run {P : α → Prop} {o : Oracle Op Res} {a : α} :
    ∀ {p : Program Op Res ε α} {h : List (Event Op Res)}, p.Returns P →
      (Program.run o h p).1 = .ok a → P a
  | pure _, _, hP, ha => Except.ok.inj ha ▸ hP
  | raise _, _, _, ha => nomatch ha
  | call _ k, _, hP, ha => Returns.run (p := k _) (hP _) ha

/-- The ghost state after a history. -/
def follow (next : γ → (op : Op) → Res op → γ) (g : γ) (h : List (Event Op Res)) : γ :=
  h.foldl (fun g event => next g event.1 event.2) g

theorem follow_concat (g : γ) (h : List (Event Op Res)) (op : Op) (r : Res op) :
    follow next g (h ++ [⟨op, r⟩]) = next (follow next g h) op r := by
  simp [follow]

/-- What a run ends with. -/
theorem Keeps.run {o : Oracle Op Res} {g : γ} :
    ∀ {p : Program Op Res ε α} {h : List (Event Op Res)},
      Keeps allowed next Q (follow next g h) p →
        Q (follow next g (Program.run o h p).2) (Program.run o h p).1
  | pure _, _, hk => hk
  | raise _, _, hk => hk
  | call op k, h, hk => by
    rw [Program.run]
    refine Keeps.run ?_
    rw [follow_concat]
    exact hk.2 (o h op)

/-! ### Events of a kind -/

/-- The ghost state that says whether every event so far is one of `S`. -/
def stillAll (S : Event Op Res → Prop) (g : Prop) (op : Op) (r : Res op) : Prop :=
  g ∧ S ⟨op, r⟩

theorem follow_stillAll {S : Event Op Res → Prop} :
    ∀ {g : Prop} {h : List (Event Op Res)}, follow (stillAll S) g h ↔ g ∧ ∀ event ∈ h, S event
  | g, [] => by simp [follow]
  | g, event :: h => by
    have hrest : follow (stillAll S) g (event :: h) = follow (stillAll S) (g ∧ S event) h := rfl
    rw [hrest, follow_stillAll, List.forall_mem_cons, and_assoc]

/-- Where the result is one of `P`, the events since `g` are of the kind. -/
def Since (P : α → Prop) (g g' : Prop) (x : Except ε α) : Prop :=
  ∀ a, x = .ok a → P a → g → g'

/-- The rule for two parts : the second starts where the first part's events are of the kind if
what it returned is one of `P`. -/
theorem keeps_since_bind {P : α → Prop} {P' : β → Prop} {allowed : Prop → Op → Prop}
    {next : Prop → (op : Op) → Res op → Prop} {g g₀ g₁ : Prop} {p : Program Op Res ε α}
    {f : α → Program Op Res ε β} (hp : Keeps allowed next (Since P g₁) g p)
    (hf : ∀ g' a, (P a → g₁ → g') → Keeps allowed next (Since P' g₀) g' (f a)) :
    Keeps allowed next (Since P' g₀) g (p >>= f) :=
  hp.bind (fun _ _ _ _ h => nomatch h) fun g' a h => hf g' a (h a rfl)

/-- The events of a run that returns one of `P`. -/
theorem Keeps.forall_mem_run {S : Event Op Res → Prop} {P : α → Prop} {allowed : Prop → Op → Prop}
    {p : Program Op Res ε α} {o : Oracle Op Res} {h h' : List (Event Op Res)} {a : α}
    (hp : ∀ g, Keeps allowed (stillAll S) (Since P g) g p) (hrun : Program.run o h p = (.ok a, h'))
    (ha : P a) (hh : ∀ event ∈ h, S event) : ∀ event ∈ h', S event := by
  have hend := Keeps.run (o := o) (h := h) (hp (follow (stillAll S) True h))
  rw [hrun] at hend
  exact (follow_stillAll.1 (hend a rfl ha (follow_stillAll.2 ⟨trivial, hh⟩))).2

end Keeps

end Program
