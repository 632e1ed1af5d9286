import EnterpriseRag.Guardrails.Contracts
import Mathlib.Data.List.Forall2

/-!
# Exceptions

What a call can raise (`Raised`). Only the kinds of exception some handler tells apart, or
some caller is told, have a constructor of their own; `exception` is any other `Exception`
and `baseException` what `except Exception` does not catch.
-/

namespace EnterpriseRag

abbrev UUID := BitVec 128

inductive Raised
  | sqlPolicyViolation (code : String)
  | sqlExecutionRejected (code : String)
  | sqlProposalState (code : String)
  | sqlProposalNotFound (id : UUID)
  | sqlGenerationFailed (lastErrorCode : String)
  | guardrailBlocked (stage : GuardrailStage) (category : Option GuardrailCategory)
  | unsupportedFileType (filename : String)
  | fileTooLarge (filename : String)
  | documentNotApprovable (message : String)
  | queryCanceled
  | lockNotAvailable
  | operationalError
  | exception (name : String)
  | baseException (name : String)
  deriving DecidableEq, Repr

/-- `except Exception` catches it. -/
def Raised.isException : Raised → Bool
  | .baseException _ => false
  | _ => true

theorem ok_of_toOption {ε : Type*} {β : Type} {r : Except ε β} {b : β}
    (h : r.toOption = some b) : r = .ok b := by
  cases r with
  | error e => cases h
  | ok b' => rw [Option.some.inj h]

theorem ok_of_join_toOption {ε : Type*} {β : Type} {r : Except ε (Option β)} {b : β}
    (h : r.toOption.join = some b) : r = .ok (some b) :=
  ok_of_toOption (Option.join_eq_some_iff.1 h)

theorem map_eq_ok {ε α β : Type*} {x : Except ε α} {f : α → β} {b : β} :
    x.map f = .ok b ↔ ∃ a, x = .ok a ∧ f a = b := by
  cases x with
  | error e => simp [Except.map]
  | ok a => simp [Except.map]

/-- A computation that returned ran both of its parts. -/
theorem bind_eq_ok {ε : Type*} {α β : Type} {x : Except ε α} {f : α → Except ε β} {b : β} :
    (x >>= f) = .ok b ↔ ∃ a, x = .ok a ∧ f a = .ok b := by
  cases x with
  | error e => simp [bind, Except.bind]
  | ok a => simp [bind, Except.bind]

/-- A computation that raised did so in its first part or in its second. -/
theorem bind_eq_error {ε : Type*} {α β : Type} {x : Except ε α} {f : α → Except ε β} {e : ε} :
    (x >>= f) = .error e ↔ x = .error e ∨ ∃ a, x = .ok a ∧ f a = .error e := by
  cases x with
  | error e => simp [bind, Except.bind]
  | ok a => simp [bind, Except.bind]

/-- A loop that returned ran its body on every element. -/
theorem mapM_eq_ok {ε : Type*} {α β : Type} {f : α → Except ε β} {as : List α} :
    ∀ {bs : List β}, as.mapM f = .ok bs ↔ List.Forall₂ (fun a b => f a = .ok b) as bs := by
  induction as with
  | nil =>
    intro bs
    rw [List.mapM_nil, List.forall₂_nil_left_iff]
    exact ⟨fun h => (Except.ok.inj h).symm, fun h => h ▸ rfl⟩
  | cons a as ih =>
    intro bs
    rw [List.mapM_cons, bind_eq_ok, List.forall₂_cons_left_iff]
    constructor
    · rintro ⟨b, hb, h⟩
      obtain ⟨bs', hbs, h⟩ := bind_eq_ok.1 h
      exact ⟨b, bs', hb, ih.1 hbs, (Except.ok.inj h).symm⟩
    · rintro ⟨b, bs', hb, hbs, rfl⟩
      exact ⟨b, hb, bind_eq_ok.2 ⟨bs', ih.2 hbs, rfl⟩⟩

theorem mapM_ok {ε : Type*} {α β : Type} {f : α → Except ε β} {as : List α} {bs : List β}
    (h : as.mapM f = .ok bs) {a : α} (ha : a ∈ as) : ∃ b, f a = .ok b := by
  obtain ⟨i, hi, rfl⟩ := List.getElem_of_mem ha
  have hall := mapM_eq_ok.1 h
  exact ⟨_, List.Forall₂.get hall hi (hall.length_eq ▸ hi)⟩

theorem exists_mapM_eq_ok {ε : Type*} {α β : Type} {f : α → Except ε β} {as : List α}
    (h : ∀ a ∈ as, ∃ b, f a = .ok b) : ∃ bs, as.mapM f = .ok bs := by
  induction as with
  | nil => exact ⟨[], rfl⟩
  | cons a as ih =>
    obtain ⟨b, hb⟩ := h a List.mem_cons_self
    obtain ⟨bs, hbs⟩ := ih fun a ha => h a (List.mem_cons_of_mem _ ha)
    exact ⟨b :: bs, mapM_eq_ok.2 (.cons hb (mapM_eq_ok.1 hbs))⟩

theorem mem_of_mapM_eq_ok {ε : Type*} {α β : Type} {f : α → Except ε β} {as : List α}
    {bs : List β} (h : as.mapM f = .ok bs) {b : β} : b ∈ bs ↔ ∃ a ∈ as, f a = .ok b := by
  have hall := mapM_eq_ok.1 h
  clear h
  induction hall with
  | nil => simp
  | cons hb _ ih =>
    rw [List.mem_cons, List.exists_mem_cons_iff, hb, Except.ok.injEq]
    exact or_congr eq_comm ih

/-- A search that returned `b` found an element exactly when `b` is `true`. -/
theorem anyM_eq_ok {ε : Type*} {α : Type} {f : α → Except ε Bool} {as : List α} {b : Bool}
    (h : as.anyM f = .ok b) : b = true ↔ ∃ a ∈ as, f a = .ok true := by
  induction as with
  | nil =>
    obtain rfl := Except.ok.inj h
    simp
  | cons a as ih =>
    rw [List.anyM_cons] at h
    obtain ⟨c, hc, h⟩ := bind_eq_ok.1 h
    cases c with
    | true =>
      obtain rfl := Except.ok.inj h
      simp [hc]
    | false => simp [ih h, hc]

end EnterpriseRag
