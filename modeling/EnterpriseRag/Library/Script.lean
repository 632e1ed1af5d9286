import EnterpriseRag.Library.Program

/-!
# Programs that follow a script

A script is a list of operations. A program follows it that performs them in order, whatever
they answer, up to one that does not return. `Follows.run` reads the whole history of such a
program off the script.
-/

namespace Program

variable {Op : Type} {Res : Op → Type} {ε α β : Type} (returned : (op : Op) → Res op → Bool)

/-- The operations in order up to one that does not return, and whether all returned. -/
def performScript (o : Oracle Op Res) :
    List Op → List (Event Op Res) → Bool × List (Event Op Res)
  | [], h => (true, h)
  | op :: script, h =>
    if returned op (o h op) then performScript o script (h ++ [⟨op, o h op⟩])
    else (false, h ++ [⟨op, o h op⟩])

/-- The program performs the script. After its end it may raise an exception of `gate`. -/
def Follows (gate : ε → Prop) : List Op → Program Op Res ε α → Prop
  | script, pure _ => script = []
  | script, raise e => script = [] ∧ gate e
  | script, call op k => ∃ rest, script = op :: rest ∧
    ∀ r, (returned op r = true → Follows gate rest (k r)) ∧
      (returned op r = false → ∃ e, k r = raise e)

variable {returned} {gate : ε → Prop} {script script' : List Op}

theorem follows_pure (a : α) :
    Follows returned gate [] (Pure.pure a : Program Op Res ε α) :=
  rfl

theorem follows_orRaise {x : Except ε α} (h : ∀ e, x = .error e → gate e) :
    Follows returned gate [] (orRaise x : Program Op Res ε α) := by
  cases x with
  | error e => exact ⟨rfl, h e rfl⟩
  | ok a => rfl

theorem follows_ask_bind {op : Op} {f : Res op → Except ε α} {g : α → Program Op Res ε β}
    (hreturned : ∀ r, returned op r = (f r).isOk)
    (hrest : ∀ a, Follows returned gate script (g a)) :
    Follows returned gate (op :: script) (ask op f >>= g) := by
  refine ⟨script, rfl, fun r => ?_⟩
  have hr := hreturned r
  cases hf : f r with
  | error e =>
    rw [hf] at hr
    refine ⟨fun h => ?_, fun _ => ⟨e, ?_⟩⟩
    · rw [hr] at h
      cases h
    · show (orRaise (f r)).bind g = raise e
      rw [hf]
      rfl
  | ok a =>
    rw [hf] at hr
    refine ⟨fun _ => ?_, fun h => ?_⟩
    · show Follows returned gate script ((orRaise (f r)).bind g)
      rw [hf]
      exact hrest a
    · rw [hr] at h
      cases h

theorem follows_perform_bind {op : Op} {g : Res op → Program Op Res ε β}
    (hreturned : ∀ r, returned op r = true) (hrest : ∀ r, Follows returned gate script (g r)) :
    Follows returned gate (op :: script) (perform op >>= g) := by
  refine ⟨script, rfl, fun r => ⟨fun _ => hrest r, fun h => ?_⟩⟩
  rw [hreturned r] at h
  cases h

theorem Follows.bind {f : α → Program Op Res ε β} (hf : ∀ a, Follows returned gate script' (f a)) :
    ∀ {p : Program Op Res ε α} {script : List Op},
      Follows returned (fun _ => False) script p →
        Follows returned gate (script ++ script') (p.bind f)
  | pure a, _, h => by
    rw [show _ = [] from h]
    exact hf a
  | raise _, _, h => h.2.elim
  | call op k, _, h => by
    obtain ⟨rest, rfl, hk⟩ := h
    refine ⟨rest ++ script', rfl, fun r => ⟨fun hr => Follows.bind hf ((hk r).1 hr), fun hr => ?_⟩⟩
    obtain ⟨e, he⟩ := (hk r).2 hr
    refine ⟨e, ?_⟩
    show (k r).bind f = raise e
    rw [he, Program.bind]

/-- The history of the program is the script's, and it returns only if all of the script did. -/
theorem Follows.run {o : Oracle Op Res} :
    ∀ {p : Program Op Res ε α} {script : List Op} {h : List (Event Op Res)},
      Follows returned gate script p →
        (run o h p).2 = (performScript returned o script h).2 ∧
          ∀ a, (run o h p).1 = .ok a → (performScript returned o script h).1 = true
  | pure a, _, h, hp => by
    rw [show _ = [] from hp]
    exact ⟨rfl, fun _ _ => rfl⟩
  | raise e, _, h, hp => by
    rw [hp.1]
    exact ⟨rfl, fun _ _ => rfl⟩
  | call op k, _, h, hp => by
    obtain ⟨rest, rfl, hk⟩ := hp
    rw [Program.run, performScript]
    cases hr : returned op (o h op) with
    | true => exact Follows.run ((hk _).1 hr)
    | false =>
      obtain ⟨e, he⟩ := (hk _).2 hr
      rw [he]
      exact ⟨rfl, fun a ha => by cases ha⟩

theorem returned_of_performScript {o : Oracle Op Res} :
    ∀ {script : List Op} {h : List (Event Op Res)}, (performScript returned o script h).1 = true →
      (∀ event ∈ h, returned event.1 event.2 = true) →
        ∀ event ∈ (performScript returned o script h).2, returned event.1 event.2 = true
  | [], _, _, hall => hall
  | op :: script, h, hscript, hall => by
    rw [performScript] at hscript ⊢
    split at hscript
    · rename_i hop
      rw [if_pos hop]
      refine returned_of_performScript hscript fun event hevent => ?_
      rcases List.mem_append.1 hevent with hevent | hevent
      · exact hall event hevent
      · rw [List.mem_singleton.1 hevent]
        exact hop
    · cases hscript

end Program
