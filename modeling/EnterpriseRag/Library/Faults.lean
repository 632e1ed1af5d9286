import EnterpriseRag.Library.Program

/-!
# Runs with faults

A program may cope with some failures of an operation by taking the response for another one,
and raise for others. `Faults` says what a response is taken for and which responses are raised
for. Surroundings are `Masked` by others if those answer alike, with every response replaced by
what it is taken for. A program `Survives` if, whatever its surroundings, it ends as under the
masked ones, or right after a response that it raises for. Then it ends as under the masked ones
exactly if no response of the run is raised for (`Survives.iff`).
-/

namespace Program

variable {Op : Type} {Res : Op → Type} {ε α β : Type}

/-- What responses are taken for, and the errors they are raised for. -/
structure Faults (Op : Type) (Res : Op → Type) (ε : Type) where
  mask : (op : Op) → Res op → Res op
  Raises : (op : Op) → Res op → ε → Prop
  mask_mask : ∀ op r, mask op (mask op r) = mask op r

namespace Faults

variable (F : Faults Op Res ε)

/-- A response that is not raised for. -/
def Benign (event : Event Op Res) : Prop :=
  ∀ e, ¬F.Raises event.1 event.2 e

/-- An operation all of whose responses are taken as they are. -/
def Transparent (op : Op) : Prop :=
  ∀ r, F.mask op r = r ∧ ∀ e, ¬F.Raises op r e

def maskEvent (event : Event Op Res) : Event Op Res :=
  ⟨event.1, F.mask event.1 event.2⟩

/-- Two histories that are taken for the same. -/
def Alike (h h' : List (Event Op Res)) : Prop :=
  h.map F.maskEvent = h'.map F.maskEvent

/-- The second surroundings answer as the first do, with their responses masked. -/
def Masked (o o' : Oracle Op Res) : Prop :=
  ∀ op h h', F.Alike h h' → o' h' op = F.mask op (o h op)

/-- A run that ends with the error its last response is raised for. -/
def EndsInFault (x : Except ε α × List (Event Op Res)) : Prop :=
  ∃ e h event, x = (.error e, h ++ [event]) ∧ F.Raises event.1 event.2 e

/-- From histories taken for the same, the program ends as under the masked surroundings, with
no response raised for, or it ends in a fault. -/
def Survives (o o' : Oracle Op Res) (p : Program Op Res ε α) : Prop :=
  ∀ h h', F.Alike h h' →
    (F.Alike (run o h p).2 (run o' h' p).2 ∧ (run o h p).1 = (run o' h' p).1 ∧
      ∀ event ∈ (run o h p).2, event ∈ h ∨ F.Benign event) ∨
    F.EndsInFault (run o h p)

variable {F} {o o' : Oracle Op Res} {h h' : List (Event Op Res)} {p : Program Op Res ε α}

theorem Alike.concat (hh : F.Alike h h') (op : Op) (r : Res op) :
    F.Alike (h ++ [⟨op, r⟩]) (h' ++ [⟨op, F.mask op r⟩]) := by
  rw [Alike, List.map_append, List.map_append, hh, List.map_singleton, List.map_singleton,
    maskEvent, maskEvent, F.mask_mask]

theorem survives_pure {a : α} : F.Survives o o' (Pure.pure a : Program Op Res ε α) :=
  fun _ _ hh => Or.inl ⟨hh, rfl, fun _ => Or.inl⟩

theorem survives_raise {e : ε} : F.Survives o o' (raise e : Program Op Res ε α) :=
  fun _ _ hh => Or.inl ⟨hh, rfl, fun _ => Or.inl⟩

theorem survives_orRaise {x : Except ε α} :
    F.Survives o o' (orRaise x : Program Op Res ε α) := by
  cases x with
  | error e => exact survives_raise
  | ok a => exact survives_pure

/-- A program in two parts. -/
theorem Survives.bind {f : α → Program Op Res ε β} (hp : F.Survives o o' p)
    (hf : ∀ a, F.Survives o o' (f a)) : F.Survives o o' (p >>= f) := by
  intro h h' hh
  rw [bind_eq, run_bind, run_bind]
  rcases hp h h' hh with ⟨halike, hresult, hbenign⟩ | ⟨e, h₁, event, hrun, hraises⟩
  · cases hrun : run o h p with
    | mk x g =>
      cases hrun' : run o' h' p with
      | mk x' g' =>
        rw [hrun, hrun'] at halike hresult
        rw [hrun] at hbenign
        dsimp only at halike hresult hbenign
        subst hresult
        cases x with
        | error e => exact Or.inl ⟨halike, rfl, hbenign⟩
        | ok a =>
          refine (hf a g g' halike).imp_left fun ⟨halike₂, hresult₂, hbenign₂⟩ => ?_
          refine ⟨halike₂, hresult₂, fun event hevent => ?_⟩
          exact (hbenign₂ event hevent).elim (hbenign event) Or.inr
  · rw [hrun]
    exact Or.inr ⟨e, h₁, event, rfl, hraises⟩

/-- An operation, and what follows it : a response not raised for is followed by the same as
what it is taken for. -/
theorem survives_call {op : Op} {k : Res op → Program Op Res ε α} (hmasked : F.Masked o o')
    (hraise : ∀ r e, F.Raises op r e → k r = raise e)
    (hk : ∀ r, (∀ e, ¬F.Raises op r e) → k (F.mask op r) = k r ∧ F.Survives o o' (k r)) :
    F.Survives o o' (call op k) := by
  intro h h' hh
  have hrun : run o h (call op k) = run o (h ++ [⟨op, o h op⟩]) (k (o h op)) := rfl
  have hrun' : run o' h' (call op k) = run o' (h' ++ [⟨op, o' h' op⟩]) (k (o' h' op)) := rfl
  by_cases hfault : ∃ e, F.Raises op (o h op) e
  · obtain ⟨e, hfault⟩ := hfault
    rw [hrun, hraise _ e hfault]
    exact Or.inr ⟨e, h, _, rfl, hfault⟩
  · have hbenign : ∀ e, ¬F.Raises op (o h op) e := fun e he => hfault ⟨e, he⟩
    obtain ⟨hsame, hrest⟩ := hk _ hbenign
    rw [hrun, hrun', hmasked op h h' hh, hsame]
    refine (hrest _ _ (hh.concat op _)).imp_left fun ⟨halike, hresult, hall⟩ => ?_
    refine ⟨halike, hresult, fun event hevent => ?_⟩
    rcases hall event hevent with hevent | hevent
    · rcases List.mem_append.1 hevent with hevent | hevent
      · exact Or.inl hevent
      · obtain rfl := List.mem_singleton.1 hevent
        exact Or.inr hbenign
    · exact Or.inr hevent

/-- A program all of whose operations are transparent. -/
theorem survives_of_uses {S : Op → Prop} (hmasked : F.Masked o o')
    (hS : ∀ op, S op → F.Transparent op) :
    ∀ {p : Program Op Res ε α}, p.Uses S → F.Survives o o' p
  | pure _, _ => survives_pure
  | raise _, _ => survives_raise
  | call op k, hp => by
    refine survives_call hmasked (fun r e he => absurd he ((hS op hp.1 r).2 e)) fun r _ => ?_
    rw [(hS op hp.1 r).1]
    exact ⟨rfl, survives_of_uses hmasked hS (hp.2 r)⟩

/-- A run does not end in a fault, and ends as under the masked surroundings, exactly if none of
its responses is raised for. -/
theorem Survives.iff (hp : F.Survives o o' p) :
    ¬F.EndsInFault (run o [] p) ∧ (run o [] p).1 = (run o' [] p).1 ↔
      ∀ event ∈ (run o [] p).2, F.Benign event := by
  constructor
  · rintro ⟨hends, -⟩ event hevent
    obtain ⟨-, -, hbenign⟩ := (hp [] [] rfl).resolve_right hends
    exact (hbenign event hevent).resolve_left List.not_mem_nil
  · intro hbenign
    have hends : ¬F.EndsInFault (run o [] p) := by
      rintro ⟨e, h, event, hrun, hraises⟩
      rw [hrun] at hbenign
      exact hbenign event (List.mem_append_right h (List.mem_singleton_self _)) e hraises
    exact ⟨hends, ((hp [] [] rfl).resolve_right hends).2.1⟩

end Faults

end Program
