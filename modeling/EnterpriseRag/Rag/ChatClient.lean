import EnterpriseRag.Core.Exceptions
import EnterpriseRag.Library.LastMatch
import EnterpriseRag.Library.Program
import Mathlib.Algebra.Order.Ring.Rat
import Mathlib.Tactic.Linarith

/-!
# The chat client

`_create_with_retries` repeats a request while it fails with an error that is worth it, up to a
number of attempts and, where the caller gives a total timeout, up to a deadline that bounds the
requests and the pauses between them. `R` holds the answers of the API and `isInstance` its
classes of errors. Of the arguments of a request only the timeout changes between attempts.
-/

namespace EnterpriseRag

/-- The calls of the client : to the clock, and to the API with the timeout it is given. -/
inductive CompletionOp
  | perfCounter
  | sleep (seconds : ℚ)
  | create (timeout : Option ℚ)

abbrev CompletionOp.Res (R : Type) : CompletionOp → Type
  | .perfCounter => ℚ
  | .sleep _ => Unit
  | .create _ => Except Raised R

abbrev CompletionProgram (R : Type) := Program CompletionOp (CompletionOp.Res R) Raised

abbrev CompletionOracle (R : Type) := Program.Oracle CompletionOp (CompletionOp.Res R)

abbrev CompletionEvent (R : Type) := Program.Event CompletionOp (CompletionOp.Res R)

/-- The error types of the SDK that are told apart. -/
inductive APIErrorType
  | apiConnectionError
  | apiTimeoutError
  | rateLimitError
  | internalServerError
  | authenticationError
  | permissionDeniedError
  | badRequestError
  | notFoundError
  | unprocessableEntityError
  deriving DecidableEq, Repr

/-- `_TRANSIENT_ERROR_TYPES`. -/
def transientErrorTypes : List APIErrorType :=
  [.apiConnectionError, .apiTimeoutError, .rateLimitError, .internalServerError]

/-- `_PERMANENT_ERROR_TYPES`. -/
def permanentErrorTypes : List APIErrorType :=
  [.authenticationError, .permissionDeniedError, .badRequestError, .notFoundError,
    .unprocessableEntityError]

/-- `_RETRY_BACKOFF_SECONDS`. -/
def retryBackoffSeconds : ℚ :=
  2

open Program

namespace OpenAILLMClient

/-- `call_deadline - time.perf_counter()`, where there is a deadline. -/
def timeLeft {R : Type} : Option ℚ → CompletionProgram R (Option ℚ)
  | none => return none
  | some deadline => do return some (deadline - (← perform .perfCounter))

/-- The pause between two attempts, which raises the error of the first where no time is left. -/
def pause {R : Type} (deadline : Option ℚ) (backoff : ℚ) (e : Raised) :
    CompletionProgram R Unit := do
  match ← timeLeft deadline with
  | some remaining =>
    if remaining ≤ 0 then .raise e else perform (CompletionOp.sleep (min backoff remaining))
  | none => perform (CompletionOp.sleep backoff)

section Client

variable {R : Type} (isInstance : Raised → APIErrorType → Bool)

/-- `_is_transient`. -/
def isTransient (e : Raised) : Bool :=
  transientErrorTypes.any (isInstance e) && !permanentErrorTypes.any (isInstance e)

/-- The loop of `_create_with_retries`, with `left` attempts left. -/
def createLoop (maxAttempts : ℕ) (deadline : Option ℚ) :
    ℕ → Option ℚ → Option Raised → CompletionProgram R R
  | 0, _, lastError => .raise (lastError.getD (.exception "AssertionError"))
  | left + 1, timeout, lastError => do
    let attempt := maxAttempts - left
    let remaining ← timeLeft deadline
    if remaining.any (· ≤ 0) then .raise (lastError.getD (.exception "TimeoutError"))
    else do
      let timeout := timeout.map fun seconds => (remaining.map (min seconds)).getD seconds
      match ← Program.attempt (.create timeout) id with
      | .ok completion => return completion
      | .error e =>
        if e.isException ∧ isTransient isInstance e then do
          if attempt < maxAttempts then pause deadline (retryBackoffSeconds * attempt) e
          createLoop maxAttempts deadline left timeout (some e)
        else .raise e

/-- `_create_with_retries`. -/
def createWithRetries (maxAttempts : ℤ) (timeout totalTimeoutSeconds : Option ℚ) :
    CompletionProgram R R := do
  if maxAttempts < 1 then .raise (.exception "ValueError")
  else
    match totalTimeoutSeconds with
    | none => createLoop isInstance maxAttempts.toNat none maxAttempts.toNat timeout none
    | some total => do
      let started ← perform .perfCounter
      createLoop isInstance maxAttempts.toNat (some (started + total)) maxAttempts.toNat timeout
        none

end Client

end OpenAILLMClient

structure TokenUsage where
  promptTokens : ℤ := 0
  completionTokens : ℤ := 0
  totalTokens : ℤ := 0
  deriving DecidableEq, Repr

/-- What is read of the first choice of an answer. -/
structure ChatCompletion where
  refusal : Option String
  content : Option String
  usage : Option TokenUsage
  deriving DecidableEq, Repr

/-- `generate_structured` : the timeout bounds each attempt and all of them. -/
def OpenAILLMClient.generateStructured {α : Type} (isInstance : Raised → APIErrorType → Bool)
    (modelValidateJson : String → Except Raised α) (timeoutSeconds : ℚ) (maxAttempts : ℤ) :
    CompletionProgram ChatCompletion (α × TokenUsage) := do
  let response ← createWithRetries isInstance maxAttempts (some timeoutSeconds)
    (some timeoutSeconds)
  if response.refusal.any (· ≠ "") then .raise (.exception "RuntimeError")
  else if response.content.getD "" = "" then .raise (.exception "ValueError")
  else do
    let value ← orRaise (modelValidateJson (response.content.getD ""))
    return (value, response.usage.getD {})

/-! ## Time -/

section Time

variable {R : Type}

/-- A call of the API. -/
def CompletionOp.isCreate : CompletionOp → Bool
  | .create _ => true
  | _ => false

/-- Time in a run. A reading of the clock ends at the time it reads, a request ends within its
timeout and a pause takes what is asked for. `idle` is the time that passed outside requests and
pauses. -/
structure Clock (o : CompletionOracle R) where
  now : List (CompletionEvent R) → ℚ
  idle : List (CompletionEvent R) → ℚ
  reading : ∀ h, o h .perfCounter = now (h ++ [⟨.perfCounter, o h .perfCounter⟩])
  now_reading : ∀ h r, now h ≤ now (h ++ [⟨.perfCounter, r⟩])
  idle_reading : ∀ h r, idle (h ++ [⟨.perfCounter, r⟩]) =
    idle h + (now (h ++ [⟨.perfCounter, r⟩]) - now h)
  now_create : ∀ h timeout r, now h ≤ now (h ++ [⟨.create (some timeout), r⟩]) ∧
    now (h ++ [⟨.create (some timeout), r⟩]) ≤ now h + max timeout 0
  idle_create : ∀ h timeout r, idle (h ++ [⟨.create timeout, r⟩]) = idle h
  now_sleep : ∀ h seconds, now (h ++ [⟨.sleep seconds, ()⟩]) = now h + seconds
  idle_sleep : ∀ h seconds, idle (h ++ [⟨.sleep seconds, ()⟩]) = idle h

variable {isInstance : Raised → APIErrorType → Bool} {o : CompletionOracle R} {clock : Clock o}
  {deadline limit : ℚ}

/-- A request that failed with an error that no attempt is repeated for. -/
def Permanent (isInstance : Raised → APIErrorType → Bool) (event : CompletionEvent R) : Prop :=
  ∃ timeout e, event = ⟨.create timeout, .error e⟩ ∧
    ¬(e.isException ∧ OpenAILLMClient.isTransient isInstance e)

/-- What happens from `h` on spends at most `attempts` requests and no time past the deadline but
what is idle. -/
structure Spent (isInstance : Raised → APIErrorType → Bool) (clock : Clock o) (deadline limit : ℚ)
    (attempts : ℕ) (h events : List (CompletionEvent R)) : Prop where
  count : (events.countP fun event => event.1.isCreate) ≤ attempts
  stops : ∀ before event after, events = before ++ event :: after → Permanent isInstance event →
    ∀ later ∈ after, later.1.isCreate = false
  timeouts : ∀ before timeout r after, events = before ++ ⟨.create timeout, r⟩ :: after →
    ∃ seconds, timeout = some seconds ∧ seconds ≤ limit ∧
      seconds ≤ deadline - clock.now (h ++ before)
  finish : clock.now (h ++ events) ≤
    max deadline (clock.now h) + (clock.idle (h ++ events) - clock.idle h)

variable {attempts : ℕ} {h events : List (CompletionEvent R)}

theorem spent_nil : Spent isInstance clock deadline limit attempts h [] where
  count := Nat.zero_le _
  stops before event after hsplit := absurd hsplit (by simp)
  timeouts before timeout r after hsplit := absurd hsplit (by simp)
  finish := by simp

/-- An event that is no request. -/
theorem Spent.cons_other {event : CompletionEvent R} (hother : event.1.isCreate = false)
    (hfinish : max deadline (clock.now (h ++ [event])) - clock.idle (h ++ [event]) ≤
      max deadline (clock.now h) - clock.idle h)
    (hspent : Spent isInstance clock deadline limit attempts (h ++ [event]) events) :
    Spent isInstance clock deadline limit attempts h (event :: events) where
  count := by
    rw [List.countP_cons_of_neg (by simp [hother])]
    exact hspent.count
  stops before event' after hsplit hpermanent := by
    cases before with
    | nil =>
      obtain ⟨rfl, rfl⟩ := List.cons.inj hsplit
      obtain ⟨timeout, e, rfl, -⟩ := hpermanent
      exact nomatch hother
    | cons first before =>
      exact hspent.stops before event' after (List.cons.inj hsplit).2 hpermanent
  timeouts before timeout r after hsplit := by
    cases before with
    | nil =>
      obtain ⟨rfl, rfl⟩ := List.cons.inj hsplit
      exact nomatch hother
    | cons first before =>
      obtain ⟨rfl, htail⟩ := List.cons.inj hsplit
      rw [List.append_cons]
      exact hspent.timeouts before timeout r after htail
  finish := by
    have hrest := hspent.finish
    rw [List.append_assoc, List.singleton_append] at hrest
    linarith

theorem Spent.cons_reading {r : ℚ}
    (hspent : Spent isInstance clock deadline limit attempts (h ++ [⟨.perfCounter, r⟩]) events) :
    Spent isInstance clock deadline limit attempts h (⟨.perfCounter, r⟩ :: events) := by
  refine hspent.cons_other rfl ?_
  have hnow := clock.now_reading h r
  rw [clock.idle_reading]
  have hlater : max deadline (clock.now (h ++ [⟨.perfCounter, r⟩])) ≤
      max deadline (clock.now h) + (clock.now (h ++ [⟨.perfCounter, r⟩]) - clock.now h) := by
    rcases max_cases deadline (clock.now (h ++ [⟨.perfCounter, r⟩])) with ⟨hmax, -⟩ | ⟨hmax, -⟩
    · rw [hmax]
      linarith [le_max_left deadline (clock.now h)]
    · rw [hmax]
      linarith [le_max_right deadline (clock.now h)]
  linarith

theorem Spent.cons_sleep {seconds : ℚ} (hseconds : seconds ≤ deadline - clock.now h)
    (hspent : Spent isInstance clock deadline limit attempts (h ++ [⟨.sleep seconds, ()⟩]) events) :
    Spent isInstance clock deadline limit attempts h (⟨.sleep seconds, ()⟩ :: events) := by
  refine hspent.cons_other rfl ?_
  rw [clock.idle_sleep, clock.now_sleep, max_eq_left (by linarith)]
  linarith [le_max_left deadline (clock.now h)]

/-- A request in time. No request follows it if it failed for good. -/
theorem Spent.cons_create {seconds : ℚ} {r : Except Raised R} (hlimit : seconds ≤ limit)
    (hseconds : seconds ≤ deadline - clock.now h) (htime : clock.now h ≤ deadline)
    (hstops : Permanent isInstance (⟨.create (some seconds), r⟩ : CompletionEvent R) → events = [])
    (hspent : Spent isInstance clock deadline limit attempts
      (h ++ [⟨.create (some seconds), r⟩]) events) :
    Spent isInstance clock deadline limit (attempts + 1) h
      (⟨.create (some seconds), r⟩ :: events) where
  count := by
    rw [List.countP_cons_of_pos rfl]
    exact Nat.succ_le_succ hspent.count
  stops before event after hsplit hpermanent := by
    cases before with
    | nil =>
      obtain ⟨rfl, rfl⟩ := List.cons.inj hsplit
      rw [hstops hpermanent]
      exact List.forall_mem_nil _
    | cons first before =>
      exact hspent.stops before event after (List.cons.inj hsplit).2 hpermanent
  timeouts before timeout r' after hsplit := by
    cases before with
    | nil =>
      obtain ⟨hsame, -⟩ := List.cons.inj hsplit
      obtain rfl := CompletionOp.create.inj (Sigma.mk.inj hsame).1
      exact ⟨seconds, rfl, hlimit, by rwa [List.append_nil]⟩
    | cons first before =>
      obtain ⟨rfl, htail⟩ := List.cons.inj hsplit
      rw [List.append_cons]
      exact hspent.timeouts before timeout r' after htail
  finish := by
    have hrest := hspent.finish
    rw [List.append_assoc, List.singleton_append, clock.idle_create] at hrest
    have hcall := (clock.now_create h seconds r).2
    have hbound : max deadline (clock.now (h ++ [⟨.create (some seconds), r⟩])) = deadline := by
      refine max_eq_left (hcall.trans ?_)
      rcases max_cases seconds 0 with ⟨hmax, -⟩ | ⟨hmax, -⟩ <;> rw [hmax] <;> linarith
    rw [hbound] at hrest
    linarith [le_max_left deadline (clock.now h)]

/-- One attempt in time. No request follows it if it failed for good. -/
theorem Spent.cons_attempt {r seconds : ℚ} {response : Except Raised R} (hlimit : seconds ≤ limit)
    (hseconds : seconds ≤ deadline - clock.now (h ++ [⟨.perfCounter, r⟩]))
    (htime : clock.now (h ++ [⟨.perfCounter, r⟩]) ≤ deadline)
    (hstops : Permanent isInstance (⟨.create (some seconds), response⟩ : CompletionEvent R) →
      events = [])
    (hspent : Spent isInstance clock deadline limit attempts
      (h ++ [⟨.perfCounter, r⟩, ⟨.create (some seconds), response⟩]) events) :
    Spent isInstance clock deadline limit (attempts + 1) h
      (⟨.perfCounter, r⟩ :: ⟨.create (some seconds), response⟩ :: events) := by
  rw [List.append_cons] at hspent
  exact (hspent.cons_create hlimit hseconds htime hstops).cons_reading

/-! ## Runs of the loop -/

namespace OpenAILLMClient

theorem run_timeLeft (clock : Clock o) (deadline : ℚ) (h : List (CompletionEvent R)) :
    ∃ r, run o h (timeLeft (some deadline)) =
      (.ok (some (deadline - clock.now (h ++ [⟨.perfCounter, r⟩]))), h ++ [⟨.perfCounter, r⟩]) := by
  refine ⟨o h .perfCounter, ?_⟩
  rw [← clock.reading]
  rfl

theorem ite_bind {waits : Prop} [Decidable waits] (p : CompletionProgram R Unit)
    (q : CompletionProgram R R) :
    (if waits then p >>= fun _ => q else q) =
      (if waits then p else return ()) >>= fun _ => q := by
  split <;> rfl

/-- A pause makes no request, and ends in time or raises. -/
theorem run_pause (isInstance : Raised → APIErrorType → Bool) (clock : Clock o) (deadline limit : ℚ)
    (waits : Prop) [Decidable waits] (backoff : ℚ) (e : Raised) (h : List (CompletionEvent R)) :
    ∃ x events,
      run o h (if waits then pause (some deadline) backoff e else return ()) = (x, h ++ events) ∧
      (x = .ok () ∨ x = .error e) ∧ (∀ event ∈ events, event.1.isCreate = false) ∧
      ∀ {attempts rest}, Spent isInstance clock deadline limit attempts (h ++ events) rest →
        Spent isInstance clock deadline limit attempts h (events ++ rest) := by
  by_cases hwaits : waits
  · obtain ⟨r, hread⟩ := run_timeLeft clock deadline h
    have hrun : run o h (pause (some deadline) backoff e) = run o (h ++ [⟨.perfCounter, r⟩])
        (if deadline - clock.now (h ++ [⟨.perfCounter, r⟩]) ≤ 0 then .raise e
          else perform (CompletionOp.sleep
            (min backoff (deadline - clock.now (h ++ [⟨.perfCounter, r⟩]))))) := by
      rw [pause, bind_eq, run_bind, hread]
    rw [if_pos hwaits, hrun]
    split
    · refine ⟨.error e, [⟨.perfCounter, r⟩], rfl, Or.inr rfl, by simp [CompletionOp.isCreate], ?_⟩
      exact Spent.cons_reading
    · refine ⟨.ok (), [⟨.perfCounter, r⟩, ⟨.sleep (min backoff (deadline - clock.now
        (h ++ [⟨.perfCounter, r⟩]))), ()⟩], ?_, Or.inl rfl, by simp [CompletionOp.isCreate], ?_⟩
      · rw [perform, run, run, List.append_assoc]
        rfl
      · intro attempts rest hspent
        rw [List.append_cons] at hspent
        exact (hspent.cons_sleep (min_le_right _ _)).cons_reading
  · rw [if_neg hwaits]
    exact ⟨.ok (), [], by simp [run], Or.inl rfl, List.forall_mem_nil _, by simp⟩

/-- What is raised is the error of the last request, or without one the error before. -/
def RaisesLast (lastError : Option Raised) (events : List (CompletionEvent R))
    (x : Except Raised R) : Prop :=
  ∀ e, x = .error e →
    (∃ timeout, LastMatch.IsLast (fun event : CompletionEvent R => event.1.isCreate = true)
      ⟨.create timeout, .error e⟩ events) ∨
    (∀ event ∈ events, event.1.isCreate = false) ∧ ∀ e', lastError = some e' → e = e'

theorem raisesLast_of_quiet {lastError : Option Raised} {x : Except Raised R}
    (hquiet : ∀ event ∈ events, event.1.isCreate = false)
    (hsame : ∀ e e', x = .error e → lastError = some e' → e = e') :
    RaisesLast lastError events x :=
  fun e he => Or.inr ⟨hquiet, fun e' he' => hsame e e' he he'⟩

/-- What follows a request that failed raises its error, or that of a later request. -/
theorem RaisesLast.after_create {lastError : Option Raised} {e : Raised} {timeout : Option ℚ}
    {x : Except Raised R} {rest : List (CompletionEvent R)}
    (before pauses : List (CompletionEvent R))
    (hpauses : ∀ event ∈ pauses, event.1.isCreate = false)
    (hraises : RaisesLast (some e) rest x) :
    RaisesLast lastError (before ++ ⟨.create timeout, .error e⟩ :: (pauses ++ rest)) x := by
  intro e' he'
  rcases hraises e' he' with ⟨timeout', before', after, rfl, hlast⟩ | ⟨hnone, hsame⟩
  · refine Or.inl ⟨timeout', before ++ ⟨.create timeout, .error e⟩ :: (pauses ++ before'), after,
      ?_, hlast⟩
    rw [List.append_assoc, List.cons_append, List.append_assoc]
  · obtain rfl := hsame e rfl
    exact Or.inl ⟨timeout, before, pauses ++ rest, rfl, rfl, List.forall_mem_append.2
      ⟨fun event h => by simp [hpauses event h], fun event h => by simp [hnone event h]⟩⟩

theorem raisesLast_error (e : Raised) :
    RaisesLast (some e) ([] : List (CompletionEvent R)) (.error e : Except Raised R) := by
  refine raisesLast_of_quiet (List.forall_mem_nil _) ?_
  rintro _ _ ⟨⟩ ⟨⟩
  rfl

theorem not_permanent_of_retry {timeout : Option ℚ} {e : Raised}
    (hretry : e.isException = true ∧ isTransient isInstance e = true) :
    ¬Permanent isInstance (⟨.create timeout, .error e⟩ : CompletionEvent R) := by
  rintro ⟨timeout', e', hsame, hpermanent⟩
  cases hsame
  exact hpermanent hretry

theorem run_createLoop (isInstance : Raised → APIErrorType → Bool) (clock : Clock o)
    (maxAttempts : ℕ) (deadline limit : ℚ) :
    ∀ (left : ℕ) (timeout : ℚ) (lastError : Option Raised) (h : List (CompletionEvent R)),
      timeout ≤ limit → ∃ x events,
        run o h (createLoop isInstance maxAttempts (some deadline) left (some timeout) lastError) =
          (x, h ++ events) ∧
        Spent isInstance clock deadline limit left h events ∧ RaisesLast lastError events x
  | 0, timeout, lastError, h, _ => by
    refine ⟨.error (lastError.getD (.exception "AssertionError")), [], by simp [createLoop, run],
      spent_nil, raisesLast_of_quiet (List.forall_mem_nil _) ?_⟩
    rintro e e' ⟨⟩ rfl
    rfl
  | left + 1, timeout, lastError, h, hlimit => by
    obtain ⟨r, hread⟩ := run_timeLeft clock deadline h
    rw [createLoop, bind_eq, run_bind, hread]
    dsimp only [Option.any_some, Option.map_some, Option.getD_some]
    by_cases hlate : deadline - clock.now (h ++ [⟨.perfCounter, r⟩]) ≤ 0
    · rw [if_pos (decide_eq_true hlate)]
      refine ⟨_, [⟨.perfCounter, r⟩], rfl, spent_nil.cons_reading,
        raisesLast_of_quiet (by simp [CompletionOp.isCreate]) ?_⟩
      rintro e e' ⟨⟩ rfl
      rfl
    rw [if_neg (by simpa using hlate)]
    generalize hseconds :
      min timeout (deadline - clock.now (h ++ [⟨.perfCounter, r⟩])) = seconds
    have hshort : seconds ≤ limit := hseconds ▸ (min_le_left _ _).trans hlimit
    have hleft : seconds ≤ deadline - clock.now (h ++ [⟨.perfCounter, r⟩]) :=
      hseconds ▸ min_le_right _ _
    have htime : clock.now (h ++ [⟨.perfCounter, r⟩]) ≤ deadline := by linarith
    rw [bind_eq, run_bind, Program.attempt, run, run]
    dsimp only [id]
    rw [List.append_assoc, List.singleton_append]
    cases hresponse : o (h ++ [⟨.perfCounter, r⟩]) (.create (some seconds)) with
    | ok completion =>
      exact ⟨.ok completion, [⟨.perfCounter, r⟩, ⟨.create (some seconds), .ok completion⟩], rfl,
        spent_nil.cons_attempt hshort hleft htime fun _ => rfl, fun e h => by cases h⟩
    | error e =>
      dsimp only
      by_cases hretry : e.isException = true ∧ isTransient isInstance e = true
      · rw [if_pos hretry]
        have hnotPermanent : ¬Permanent isInstance
            (⟨.create (some seconds), .error e⟩ : CompletionEvent R) :=
          not_permanent_of_retry hretry
        obtain ⟨paused, pauses, hpause, hpaused, hquiet, hpauses⟩ := run_pause isInstance clock
          deadline limit (maxAttempts - left < maxAttempts)
          (retryBackoffSeconds * (maxAttempts - left : ℕ)) e
          (h ++ [⟨.perfCounter, r⟩, ⟨.create (some seconds), .error e⟩])
        rw [ite_bind, bind_eq, run_bind, hpause]
        rcases hpaused with rfl | rfl
        · obtain ⟨x, rest, hrun, hrest, hraises⟩ := run_createLoop isInstance clock maxAttempts
            deadline limit left seconds (some e)
            (h ++ [⟨.perfCounter, r⟩, ⟨.create (some seconds), .error e⟩] ++ pauses) hshort
          refine ⟨x, ⟨.perfCounter, r⟩ :: ⟨.create (some seconds), .error e⟩ :: (pauses ++ rest),
            ?_, (hpauses hrest).cons_attempt hshort hleft htime (absurd · hnotPermanent),
            hraises.after_create [_] pauses hquiet⟩
          dsimp only
          rw [hrun, List.append_assoc, List.append_assoc]
          rfl
        · refine ⟨.error e,
            ⟨.perfCounter, r⟩ :: ⟨.create (some seconds), .error e⟩ :: (pauses ++ []), ?_,
            (hpauses spent_nil).cons_attempt hshort hleft htime (absurd · hnotPermanent), ?_⟩
          · dsimp only
            rw [List.append_nil, List.append_assoc]
            rfl
          · exact (raisesLast_error e).after_create [_] pauses hquiet
      · rw [if_neg hretry]
        exact ⟨.error e, [⟨.perfCounter, r⟩, ⟨.create (some seconds), .error e⟩], rfl,
          spent_nil.cons_attempt hshort hleft htime fun _ => rfl,
          (raisesLast_error e).after_create [_] [] (List.forall_mem_nil _)⟩

/-- `generate_structured` makes the requests of `_create_with_retries` and no other call. -/
theorem history_generateStructured {α : Type} (modelValidateJson : String → Except Raised α)
    (timeoutSeconds : ℚ) (maxAttempts : ℤ) (o : CompletionOracle ChatCompletion) :
    (run o [] (generateStructured isInstance modelValidateJson timeoutSeconds maxAttempts)).2 =
      (run o [] (createWithRetries isInstance maxAttempts (some timeoutSeconds)
        (some timeoutSeconds))).2 := by
  rw [generateStructured, bind_eq, run_bind]
  split
  · rename_i response h hrun
    rw [hrun]
    split
    · rfl
    split
    · rfl
    cases modelValidateJson (response.content.getD "") <;> rfl
  · rename_i e h hrun
    rw [hrun]

/-- With a timeout for each request and a total one, a run makes at most the attempts it is given
and none after an error that is not transient, each in the time that is left. It ends within the
total timeout, but for what is idle, and what it raises after a request is the error of the last
one. -/
theorem retries_respect_deadline (isInstance : Raised → APIErrorType → Bool) (maxAttempts : ℤ)
    (hattempts : 1 ≤ maxAttempts) (timeout total : ℚ) (o : CompletionOracle R) (clock : Clock o) :
    ∃ x h, run o [] (createWithRetries isInstance maxAttempts (some timeout) (some total)) =
        (x, h) ∧
      ((h.countP fun event => event.1.isCreate : ℕ) : ℤ) ≤ maxAttempts ∧
      (∀ before event after, h = before ++ event :: after → Permanent isInstance event →
        ∀ later ∈ after, later.1.isCreate = false) ∧
      (∀ before given r after, h = before ++ ⟨.create given, r⟩ :: after →
        ∃ seconds, given = some seconds ∧ seconds ≤ timeout ∧
          seconds ≤ o [] .perfCounter + total - clock.now before) ∧
      clock.now h ≤ clock.now [] + max total 0 + (clock.idle h - clock.idle []) ∧
      ∀ e, x = .error e → (∃ event ∈ h, event.1.isCreate = true) →
        ∃ given, LastMatch.IsLast (fun event : CompletionEvent R => event.1.isCreate = true)
          ⟨.create given, .error e⟩ h := by
  have hstart := clock.reading []
  have hidle := clock.idle_reading [] (o [] .perfCounter)
  rw [List.nil_append] at hstart hidle
  obtain ⟨x, events, hrun, hspent, hraises⟩ := run_createLoop isInstance clock
    maxAttempts.toNat (o [] .perfCounter + total) timeout maxAttempts.toNat timeout none
    [⟨.perfCounter, o [] .perfCounter⟩] le_rfl
  have hspent' := Spent.cons_reading (h := []) hspent
  refine ⟨x, ⟨.perfCounter, o [] .perfCounter⟩ :: events, ?_, ?_, hspent'.stops, ?_, ?_, ?_⟩
  · rw [createWithRetries, if_neg (by omega)]
    exact hrun
  · calc ((List.countP _ _ : ℕ) : ℤ)
      _ ≤ (maxAttempts.toNat : ℤ) := Int.ofNat_le.2 hspent'.count
      _ = maxAttempts := Int.toNat_of_nonneg (by omega)
  · exact hspent'.timeouts
  · have hfinish := hspent.finish
    rw [← hstart, List.singleton_append] at hfinish
    have hmax : max (o [] .perfCounter + total) (o [] .perfCounter) =
        o [] .perfCounter + max total 0 := by
      rw [← max_add_add_left, add_zero]
    rw [hmax] at hfinish
    linarith
  · rintro e rfl ⟨event, hevent, hcreate⟩
    rcases hraises e rfl with ⟨given, before, after, rfl, hlast⟩ | ⟨hnone, -⟩
    · exact ⟨given, ⟨.perfCounter, o [] .perfCounter⟩ :: before, after, rfl, hlast⟩
    · rcases List.mem_cons.1 hevent with rfl | hevent
      · exact nomatch hcreate
      · rw [hnone event hevent] at hcreate
        exact nomatch hcreate

/-- The time a call takes when the API answers within a second. -/
def promptSeconds (R : Type) (event : CompletionEvent R) : ℚ :=
  match event.1 with
  | .perfCounter => 0
  | .sleep seconds => seconds
  | .create timeout => min (max (timeout.getD 1) 0) 1

/-- The API refuses once for its rate limit, and then answers. -/
def busyDay : CompletionOracle ℕ
  | h, .perfCounter => (h.map (promptSeconds ℕ)).sum
  | _, .sleep _ => ()
  | h, .create _ =>
    if h.any fun event => event.1.isCreate then .ok 7 else .error (.exception "RateLimitError")

def busyClock : Clock busyDay where
  now h := (h.map (promptSeconds ℕ)).sum
  idle _ := 0
  reading h := by simp [busyDay, promptSeconds]
  now_reading h r := by simp [promptSeconds]
  idle_reading h r := by simp [promptSeconds]
  now_create h timeout r := by
    have hnow : ((h ++ [(⟨.create (some timeout), r⟩ : CompletionEvent ℕ)]).map
        (promptSeconds ℕ)).sum =
        (h.map (promptSeconds ℕ)).sum + min (max timeout 0) 1 := by simp [promptSeconds]
    have hnonneg : 0 ≤ min (max timeout 0) 1 := le_min (le_max_right _ _) zero_le_one
    rw [hnow]
    exact ⟨by linarith, by linarith [min_le_left (max timeout 0) 1]⟩
  idle_create _ _ _ := rfl
  now_sleep h seconds := by simp [promptSeconds]
  idle_sleep _ _ := rfl

/-- A second attempt after a pause. -/
theorem retries_respect_deadline_busy :
    (run busyDay [] (createWithRetries
      (fun e type => e = .exception "RateLimitError" ∧ type = .rateLimitError) 2 (some 30)
        (some 30))).1 = .ok 7 ∧
    busyClock.now (run busyDay [] (createWithRetries
      (fun e type => e = .exception "RateLimitError" ∧ type = .rateLimitError) 2 (some 30)
        (some 30))).2 ≤ 30 := by
  obtain ⟨x, h, hrun, -, -, -, hfinish, -⟩ := retries_respect_deadline
    (fun e type => e = .exception "RateLimitError" ∧ type = .rateLimitError) 2 (by decide) 30 30
    busyDay busyClock
  refine ⟨by decide +kernel, ?_⟩
  rw [hrun]
  have hbound : busyClock.now [] + max 30 0 + (busyClock.idle h - busyClock.idle []) = 30 := by
    simp [busyClock]
  exact hfinish.trans hbound.le

end OpenAILLMClient

end Time

end EnterpriseRag
