import EnterpriseRag.Library.Transition
import Mathlib.Logic.Function.Basic
import Mathlib.Algebra.Order.Field.Rat

/-!
# The collection of the semantic cache

`QdrantSemanticQueryCache` creates its collection on its first operation. A flag of the worker
says that this has been done and a lock lets one thread of the worker at a time find out, and
`clear` deletes the collection and creates it again without the lock. Any number of threads of
any number of workers run here, one call of the store or one access of the flag or the lock at a
time, and a call of the store may raise, before or after it has landed.

`gate` is what the flag and the lock are for. `available` says when there is a collection for
the operations of a worker that has the flag, and `lost_for_good` what becomes of a clear that
does not get to create it again.
-/

namespace EnterpriseRag.SemanticCache

open Transition

variable {V : Type}

/-- A `PointStruct` of the collection. -/
structure Point (V : Type) where
  vector : V
  cacheNamespace : String
  topK : ℕ
  cacheKey : String
  deriving DecidableEq, Repr

/-- The fields with a payload index, in the order the indexes are created. -/
inductive IndexedField
  | cacheNamespace
  | topK
  deriving DecidableEq, Repr

structure Collection (V : Type) where
  indexes : List IndexedField
  points : List (Point V)
  deriving DecidableEq, Repr

inductive Operation (V : Type)
  | find
  | record (point : Point V)
  | clear
  deriving DecidableEq, Repr

/-! ## The store -/

inductive StoreCall (V : Type)
  | collectionExists
  | createCollection
  | createPayloadIndex (field : IndexedField)
  | queryPoints
  | upsert (point : Point V)
  | count
  | deleteCollection
  deriving DecidableEq, Repr

/-- The collection after the call, and whether there was one before. `none` is a call that the
store refuses : there is no collection to ask, or one where it is to be created. -/
def StoreCall.effect (held : Option (Collection V)) :
    StoreCall V → Option (Option (Collection V) × Bool)
  | collectionExists => some (held, held.isSome)
  | createCollection => if held.isSome then none else some (some ⟨[], []⟩, false)
  | createPayloadIndex field =>
    held.map fun c => (some { c with indexes := c.indexes ++ [field] }, true)
  | queryPoints => held.map fun c => (some c, true)
  | upsert point => held.map fun c => (some { c with points := c.points ++ [point] }, true)
  | count => held.map fun c => (some c, true)
  | deleteCollection => some (none, held.isSome)

/-! ## A thread -/

/-- Where a thread is : in `_ensure_collection_ready` for an operation, in the operation itself,
or in `_ensure_collection` at the end of a clear. -/
inductive Place (V : Type)
  | idle
  | checkReady (op : Operation V)
  | acquire (op : Operation V)
  | recheckReady (op : Operation V)
  | ensureExists (op : Operation V)
  | ensureCreate (op : Operation V)
  | ensureIndex (op : Operation V) (field : IndexedField)
  | setReady (op : Operation V)
  | operate (op : Operation V)
  | clearDelete
  | clearExists
  | clearCreate
  | clearIndex (field : IndexedField)
  deriving DecidableEq, Repr

namespace Place

/-- The call of the store that the thread makes next. -/
def call : Place V → Option (StoreCall V)
  | ensureExists _ | clearExists => some .collectionExists
  | ensureCreate _ | clearCreate => some .createCollection
  | ensureIndex _ field | clearIndex field => some (.createPayloadIndex field)
  | operate .find => some .queryPoints
  | operate (.record point) => some (.upsert point)
  | operate .clear => some .count
  | clearDelete => some .deleteCollection
  | idle | checkReady _ | acquire _ | recheckReady _ | setReady _ => none

/-- Where the thread goes on after the call. -/
def next : Place V → Bool → Place V
  | ensureExists op, existed => if existed then setReady op else ensureCreate op
  | ensureCreate op, _ => ensureIndex op .cacheNamespace
  | ensureIndex op .cacheNamespace, _ => ensureIndex op .topK
  | ensureIndex op .topK, _ => setReady op
  | operate .clear, _ => clearDelete
  | clearDelete, _ => clearExists
  | clearExists, existed => if existed then idle else clearCreate
  | clearCreate, _ => clearIndex .cacheNamespace
  | clearIndex .cacheNamespace, _ => clearIndex .topK
  | _, _ => idle

end Place

structure World (V : Type) where
  collection : Option (Collection V)
  ready : ℕ → Bool
  /-- The thread that holds the lock of a worker. -/
  lock : ℕ → Option ℕ
  place : ℕ → Place V

inductive Outcome
  | ok
  | raises (landed : Bool)
  deriving DecidableEq, Repr

inductive Action (V : Type)
  | begin (thread : ℕ) (op : Operation V)
  | run (thread : ℕ) (outcome : Outcome)
  deriving DecidableEq, Repr

-- the worker a thread belongs to
variable (worker : ℕ → ℕ)

namespace World

variable (s : World V)

def goto (thread : ℕ) (place : Place V) : World V :=
  { s with place := Function.update s.place thread place }

/-- The thread is done, and lets go of the lock if it holds it. -/
def stop (thread : ℕ) : World V :=
  { s with
    lock := if s.lock (worker thread) = some thread then
      Function.update s.lock (worker thread) none else s.lock
    place := Function.update s.place thread .idle }

/-- `with lock` ends, and the operation goes on. -/
def release (thread : ℕ) (op : Operation V) : World V :=
  { s with
    lock := Function.update s.lock (worker thread) none
    place := Function.update s.place thread (.operate op) }

end World

/-- A step of the thread that calls the store. -/
def callStep (s : World V) (thread : ℕ) (call : StoreCall V) (outcome : Outcome) : World V :=
  match call.effect s.collection with
  | none => s.stop worker thread
  | some (collection, existed) =>
    match outcome with
    | .ok => { s.goto thread ((s.place thread).next existed) with collection := collection }
    | .raises landed =>
      { s.stop worker thread with collection := if landed then collection else s.collection }

def step (s : World V) : Action V → Option (World V)
  | .begin thread op =>
    if s.place thread matches .idle then some (s.goto thread (.checkReady op)) else none
  | .run thread outcome =>
    match s.place thread with
    | .idle => none
    | .checkReady op =>
      some (s.goto thread (if s.ready (worker thread) then .operate op else .acquire op))
    | .acquire op =>
      if s.lock (worker thread) = none then
        some { s.goto thread (.recheckReady op) with
          lock := Function.update s.lock (worker thread) (some thread) }
      else none
    | .recheckReady op =>
      some (if s.ready (worker thread) then s.release worker thread op
        else s.goto thread (.ensureExists op))
    | .setReady op =>
      some { s.release worker thread op with
        ready := Function.update s.ready (worker thread) true }
    | place => place.call.map fun call => callStep worker s thread call outcome

section CallStep

variable {worker : ℕ → ℕ} {s : World V} {thread : ℕ} {call : StoreCall V}
  {reply : Option (Collection V) × Bool}

theorem callStep_ok (h : call.effect s.collection = some reply) :
    callStep worker s thread call .ok =
      { s.goto thread ((s.place thread).next reply.2) with collection := reply.1 } := by
  rw [callStep, h]

theorem callStep_refused (h : call.effect s.collection = none) (outcome : Outcome) :
    callStep worker s thread call outcome = s.stop worker thread := by
  rw [callStep, h]

theorem callStep_raises (h : call.effect s.collection = some reply) (landed : Bool) :
    callStep worker s thread call (.raises landed) = { s.stop worker thread with
      collection := if landed then reply.1 else s.collection } := by
  rw [callStep, h]

end CallStep

/-- All that a step can do. -/
inductive Steps (s : World V) : Action V → World V → Prop
  | begin (thread : ℕ) (op : Operation V) (hplace : s.place thread = .idle) :
    Steps s (.begin thread op) (s.goto thread (.checkReady op))
  | ready (thread : ℕ) (outcome : Outcome) (op : Operation V)
    (hplace : s.place thread = .checkReady op) (hready : s.ready (worker thread) = true) :
    Steps s (.run thread outcome) (s.goto thread (.operate op))
  | notReady (thread : ℕ) (outcome : Outcome) (op : Operation V)
    (hplace : s.place thread = .checkReady op) :
    Steps s (.run thread outcome) (s.goto thread (.acquire op))
  | acquire (thread : ℕ) (outcome : Outcome) (op : Operation V)
    (hplace : s.place thread = .acquire op) (hfree : s.lock (worker thread) = none) :
    Steps s (.run thread outcome) { s.goto thread (.recheckReady op) with
      lock := Function.update s.lock (worker thread) (some thread) }
  | readyNow (thread : ℕ) (outcome : Outcome) (op : Operation V)
    (hplace : s.place thread = .recheckReady op) (hready : s.ready (worker thread) = true) :
    Steps s (.run thread outcome) (s.release worker thread op)
  | ensure (thread : ℕ) (outcome : Outcome) (op : Operation V)
    (hplace : s.place thread = .recheckReady op) (hready : s.ready (worker thread) = false) :
    Steps s (.run thread outcome) (s.goto thread (.ensureExists op))
  | setReady (thread : ℕ) (outcome : Outcome) (op : Operation V)
    (hplace : s.place thread = .setReady op) :
    Steps s (.run thread outcome) { s.release worker thread op with
      ready := Function.update s.ready (worker thread) true }
  | call (thread : ℕ) (outcome : Outcome) (call : StoreCall V)
    (hcall : (s.place thread).call = some call) :
    Steps s (.run thread outcome) (callStep worker s thread call outcome)

theorem steps_of_step {worker : ℕ → ℕ} {s s' : World V} {a : Action V}
    (h : step worker s a = some s') : Steps worker s a s' := by
  cases a with
  | begin thread op =>
    rw [step] at h
    split at h
    · rename_i hidle
      cases h
      refine .begin thread op ?_
      cases hplace : s.place thread <;> rw [hplace] at hidle <;> first | rfl | cases hidle
    · cases h
  | run thread outcome =>
    rw [step] at h
    split at h
    · cases h
    · rename_i op hplace
      cases h
      split
      · rename_i hready
        exact .ready thread outcome op hplace hready
      · exact .notReady thread outcome op hplace
    · rename_i op hplace
      obtain ⟨hfree, hs⟩ := Option.ite_none_right_eq_some.1 h
      cases hs
      exact .acquire thread outcome op hplace hfree
    · rename_i op hplace
      cases h
      split
      · rename_i hready
        exact .readyNow thread outcome op hplace hready
      · rename_i hready
        exact .ensure thread outcome op hplace (Bool.eq_false_of_not_eq_true hready)
    · rename_i op hplace
      cases h
      exact .setReady thread outcome op hplace
    · obtain ⟨call, hcall, rfl⟩ := Option.map_eq_some_iff.1 h
      exact .call thread outcome call hcall

/-- No thread has begun, and no worker knows of a collection. -/
def start (collection : Option (Collection V)) : World V where
  collection := collection
  ready _ := false
  lock _ := none
  place _ := .idle

/-! ## The flag and the lock -/

/-- Where a thread may be that records or finds, with whether there is a collection and who
holds the lock. -/
def Fits (lock : Option ℕ) (held : Bool) (thread : ℕ) : Place V → Prop
  | .idle => True
  | .checkReady op | .acquire op => op ≠ .clear
  | .recheckReady op | .ensureExists op => op ≠ .clear ∧ lock = some thread
  | .ensureCreate op => op ≠ .clear ∧ lock = some thread ∧ held = false
  | .ensureIndex op _ | .setReady op => op ≠ .clear ∧ lock = some thread ∧ held = true
  | .operate op => op ≠ .clear ∧ held = true
  | _ => False

/-- What holds of the one worker `w` while nobody clears. -/
structure Gated (w : ℕ) (s : World V) : Prop where
  ready : s.ready w = true → s.collection.isSome = true
  fits : ∀ thread, Fits (s.lock w) s.collection.isSome thread (s.place thread)

/-- A thread that does not hold the lock may be where it is whoever holds it, also once there is
a collection. -/
theorem Fits.mono {lock lock' : Option ℕ} {held held' : Bool} {thread : ℕ} {place : Place V}
    (h : Fits lock held thread place) (hlock : lock ≠ some thread)
    (hheld : held = true → held' = true) : Fits lock' held' thread place := by
  cases place with
  | idle | checkReady | acquire => exact h
  | recheckReady | ensureExists => exact absurd h.2 hlock
  | ensureCreate | ensureIndex | setReady => exact absurd h.2.1 hlock
  | operate => exact ⟨h.1, hheld h.2⟩
  | clearDelete | clearExists | clearCreate | clearIndex => exact h.elim

/-- The store does not refuse a thread that fits. -/
theorem Fits.effect_isSome {lock : Option ℕ} {held : Option (Collection V)} {thread : ℕ}
    {place : Place V} {call : StoreCall V} (h : Fits lock held.isSome thread place)
    (hcall : place.call = some call) : (call.effect held).isSome = true := by
  cases place with
  | idle | checkReady | acquire | recheckReady | setReady => cases hcall
  | ensureExists =>
    cases hcall
    rfl
  | ensureCreate =>
    cases hcall
    rw [StoreCall.effect, h.2.2]
    rfl
  | ensureIndex =>
    cases hcall
    rw [StoreCall.effect, Option.isSome_map, h.2.2]
  | operate op =>
    cases op with
    | find | record =>
      cases hcall
      rw [StoreCall.effect, Option.isSome_map, h.2]
    | clear => exact absurd rfl h.1
  | clearDelete | clearExists | clearCreate | clearIndex => exact h.elim

section Gate

variable {worker : ℕ → ℕ} {w : ℕ} {s s' : World V} {thread : ℕ}

/-- The thread goes somewhere else, and neither the lock nor the store changes. -/
theorem Gated.goto (hs : Gated w s) {place : Place V}
    (hplace : Fits (s.lock w) s.collection.isSome thread place) :
    Gated w (s.goto thread place) := by
  refine ⟨hs.ready, fun other => ?_⟩
  dsimp only [World.goto]
  by_cases hother : other = thread
  · subst hother
    rw [Function.update_self]
    exact hplace
  · rw [Function.update_of_ne hother]
    exact hs.fits other

/-- The thread that holds the lock goes somewhere else. -/
theorem Gated.under_lock (hs : Gated w s) (hlock : s.lock w = some thread) {place : Place V}
    {collection : Option (Collection V)} {lock : Option ℕ} {ready : ℕ → Bool} {locks : ℕ → Option ℕ}
    (hlocks : locks w = lock)
    (hcollection : s.collection.isSome = true → collection.isSome = true)
    (hready : ready w = true → collection.isSome = true)
    (hplace : Fits lock collection.isSome thread place) :
    Gated w ⟨collection, ready, locks, Function.update s.place thread place⟩ := by
  refine ⟨hready, fun other => ?_⟩
  dsimp only
  rw [hlocks]
  by_cases hother : other = thread
  · subst hother
    rw [Function.update_self]
    exact hplace
  · rw [Function.update_of_ne hother]
    refine (hs.fits other).mono (fun heq => hother ?_) hcollection
    exact Option.some.inj (heq.symm.trans hlock)

theorem gated_begin (hs : Gated w s) {op : Operation V} (hop : op ≠ .clear)
    (h : step worker s (.begin thread op) = some s') : Gated w s' := by
  cases steps_of_step h with
  | begin => exact hs.goto hop

/-- A call of the store that does not raise. -/
theorem gated_callStep (hs : Gated w s) (hworker : worker thread = w) {call : StoreCall V}
    (hcall : (s.place thread).call = some call) :
    Gated w (callStep worker s thread call .ok) := by
  have hfits := hs.fits thread
  obtain ⟨⟨collection, existed⟩, heffect⟩ :=
    Option.isSome_iff_exists.1 (hfits.effect_isSome hcall)
  rw [callStep_ok heffect]
  dsimp only [World.goto]
  cases hplace : s.place thread with
  | idle | checkReady | acquire | recheckReady | setReady =>
    rw [hplace] at hcall
    cases hcall
  | ensureExists op =>
    rw [hplace] at hcall hfits
    cases hcall
    cases heffect
    refine hs.under_lock hfits.2 rfl id hs.ready ?_
    rw [Place.next]
    cases hheld : s.collection.isSome with
    | true => exact ⟨hfits.1, hfits.2, rfl⟩
    | false => exact ⟨hfits.1, hfits.2, rfl⟩
  | ensureCreate op =>
    rw [hplace] at hcall hfits
    cases hcall
    rw [StoreCall.effect, hfits.2.2] at heffect
    cases heffect
    exact hs.under_lock hfits.2.1 rfl (fun _ => rfl) (fun _ => rfl) ⟨hfits.1, hfits.2.1, rfl⟩
  | ensureIndex op field =>
    rw [hplace] at hcall hfits
    cases hcall
    obtain ⟨c, -, hc⟩ := Option.map_eq_some_iff.1 heffect
    cases hc
    refine hs.under_lock hfits.2.1 rfl (fun _ => rfl) (fun _ => rfl) ?_
    cases field <;> exact ⟨hfits.1, hfits.2.1, rfl⟩
  | operate op =>
    rw [hplace] at hcall hfits
    cases op with
    | find | record =>
      cases hcall
      obtain ⟨c, hheld, hc⟩ := Option.map_eq_some_iff.1 heffect
      cases hc
      refine ⟨fun _ => rfl, fun other => ?_⟩
      have hother := hs.fits other
      rw [hheld] at hother
      dsimp only
      by_cases heq : other = thread
      · subst heq
        rw [Function.update_self]
        exact trivial
      · rw [Function.update_of_ne heq]
        exact hother
    | clear => exact absurd rfl hfits.1
  | clearDelete | clearExists | clearCreate | clearIndex =>
    rw [hplace] at hfits
    exact hfits.elim

theorem gated_run (hs : Gated w s) (hworker : worker thread = w)
    (h : step worker s (.run thread .ok) = some s') : Gated w s' := by
  have hfits := hs.fits thread
  have hunlocked : Function.update s.lock (worker thread) none w = none := by
    rw [hworker, Function.update_self]
  cases steps_of_step h with
  | ready _ _ op hplace hready =>
    rw [hplace] at hfits
    exact hs.goto ⟨hfits, hs.ready (hworker ▸ hready)⟩
  | notReady _ _ op hplace =>
    rw [hplace] at hfits
    exact hs.goto hfits
  | acquire _ _ op hplace hfree =>
    rw [hplace] at hfits
    rw [hworker] at hfree ⊢
    refine ⟨hs.ready, fun other => ?_⟩
    dsimp only [World.goto]
    rw [Function.update_self]
    by_cases hother : other = thread
    · subst hother
      rw [Function.update_self]
      exact ⟨hfits, rfl⟩
    · rw [Function.update_of_ne hother]
      refine (hs.fits other).mono (fun heq => ?_) id
      rw [hfree] at heq
      cases heq
  | readyNow _ _ op hplace hready =>
    rw [hplace] at hfits
    rw [hworker] at hready
    exact hs.under_lock hfits.2 hunlocked id hs.ready ⟨hfits.1, hs.ready hready⟩
  | ensure _ _ op hplace =>
    rw [hplace] at hfits
    exact hs.goto hfits
  | setReady _ _ op hplace =>
    rw [hplace] at hfits
    exact hs.under_lock hfits.2.1 hunlocked id (fun _ => hfits.2.2) ⟨hfits.1, hfits.2.2⟩
  | call _ _ call hcall => exact gated_callStep hs hworker hcall

/-- In a worker of its own, with nothing cleared and no call of the store that raises, the store
refuses no call : whatever the threads do between each other's steps, the collection is created
at most once, and recorded in and searched only once it is there. -/
theorem gate {collection : Option (Collection V)} {run : List (Action V)}
    (hrun : exec (step worker) (start collection) run = some s)
    (hworker : ∀ thread, worker thread = w) (hclear : ∀ thread, .begin thread .clear ∉ run)
    (hraises : ∀ thread landed, .run thread (.raises landed) ∉ run) {call : StoreCall V}
    (hcall : (s.place thread).call = some call) : (call.effect s.collection).isSome = true := by
  have hstart : Gated w (start collection : World V) :=
    ⟨fun h => (by cases h), fun _ => trivial⟩
  refine Fits.effect_isSome ((invariant_along (I := Gated w) (P := fun _ a => a ∈ run)
    (fun u a u' hu ha hstep => ?_) hstart (along_of_forall_mem (fun a ha _ => ha) _) hrun).fits
      thread) hcall
  cases a with
  | begin other op =>
    refine gated_begin hu (fun hop => hclear other ?_) hstep
    rwa [hop] at ha
  | run other outcome =>
    cases outcome with
    | ok => exact gated_run hu (hworker other) hstep
    | raises landed => exact absurd ha (hraises other landed)

/-- Two threads find the flag down before either holds the lock. -/
theorem gate_two_threads : ∃ s : World ℕ, exec (step fun _ => 0) (start none)
      [.begin 0 .find, .begin 1 .find, .run 0 .ok, .run 1 .ok, .run 0 .ok, .run 0 .ok, .run 0 .ok]
        = some s ∧
    (StoreCall.createCollection.effect s.collection).isSome = true := by
  obtain ⟨s, hs⟩ : ∃ s : World ℕ, exec (step fun _ => 0) (start none)
      [.begin 0 .find, .begin 1 .find, .run 0 .ok, .run 1 .ok, .run 0 .ok, .run 0 .ok, .run 0 .ok]
        = some s := ⟨_, rfl⟩
  have hcall : (s.place 0).call = some .createCollection := by
    cases hs
    rfl
  exact ⟨s, hs, gate (w := 0) hs (fun _ => rfl) (fun _ => by simp) (fun _ _ => by simp) hcall⟩

end Gate

/-! ## The collection of a worker with the flag -/

/-- The thread has deleted the collection and is about to create it again. -/
def Place.inWindow : Place V → Bool
  | clearExists | clearCreate => true
  | _ => false

/-- The thread is about to raise the flag. -/
def Place.past : Place V → Bool
  | ensureIndex _ _ | setReady _ => true
  | _ => false

/-- The thread got here past the flag. -/
def Place.behindFlag : Place V → Bool
  | operate _ | clearDelete | clearExists | clearCreate | clearIndex _ => true
  | _ => false

/-- If there is no collection, some thread is about to create it again after a clear, or no
worker has the flag or is about to get it. -/
def Provided (s : World V) : Prop :=
  s.collection = none → (∃ thread, (s.place thread).inWindow = true) ∨
    ((∀ w, s.ready w = false) ∧ ∀ thread, (s.place thread).past = false)

/-- A clear whose call raises after the collection is deleted and before it is created again,
with no other clear there to create it. -/
def Strands (s : World V) (a : Action V) : Prop :=
  ∃ thread landed, a = .run thread (.raises landed) ∧
    (∀ other, other ≠ thread → (s.place other).inWindow = false) ∧
    ((s.place thread = .clearDelete ∧ landed = true) ∨
      (s.collection = none ∧ (s.place thread = .clearExists ∨
        (s.place thread = .clearCreate ∧ landed = false))))

/-- A thread gets behind the flag when its worker has it. -/
def Flagged (worker : ℕ → ℕ) (s : World V) : Prop :=
  ∀ thread, (s.place thread).behindFlag = true → s.ready (worker thread) = true

section Window

variable {worker : ℕ → ℕ} {s s' : World V} {thread : ℕ} {place : Place V}

/-- A step of a thread that calls no store. -/
structure LocalStep (worker : ℕ → ℕ) (s s' : World V) (thread : ℕ) (place : Place V) : Prop where
  placed : s'.place = Function.update s.place thread place
  collection : s'.collection = s.collection
  ready : s'.ready = s.ready ∨ (s.place thread).past = true ∧
    s'.ready = Function.update s.ready (worker thread) true
  inWindow : (s.place thread).inWindow = false ∧ place.inWindow = false
  past : place.past = false
  behindFlag : place.behindFlag = true → s'.ready (worker thread) = true

theorem step_cases {a : Action V} (h : step worker s a = some s') :
    (∃ thread place, LocalStep worker s s' thread place ∧ ¬Strands s a) ∨
    ∃ thread outcome call, a = .run thread outcome ∧ (s.place thread).call = some call ∧
      s' = callStep worker s thread call outcome := by
  have hlocal : ∀ {thread outcome place}, s.place thread = place → place.inWindow = false →
      place ≠ .clearDelete → ¬Strands s (.run thread outcome) := by
    rintro thread outcome place rfl hwindow hdelete ⟨other, landed, heq, -, hplace⟩
    cases heq
    rcases hplace with ⟨hplace, -⟩ | ⟨-, hplace | ⟨hplace, -⟩⟩
    · exact hdelete hplace
    · rw [hplace] at hwindow
      cases hwindow
    · rw [hplace] at hwindow
      cases hwindow
  cases steps_of_step h with
  | begin thread op hplace =>
    refine Or.inl ⟨thread, _, ⟨rfl, rfl, Or.inl rfl, ⟨by rw [hplace]; rfl, rfl⟩, rfl,
      fun h => (by cases h)⟩, ?_⟩
    rintro ⟨other, landed, heq, -⟩
    cases heq
  | ready thread outcome op hplace hready =>
    exact Or.inl ⟨thread, _, ⟨rfl, rfl, Or.inl rfl, ⟨by rw [hplace]; rfl, rfl⟩, rfl,
      fun _ => hready⟩, hlocal hplace rfl fun h => by cases h⟩
  | notReady thread outcome op hplace =>
    exact Or.inl ⟨thread, _, ⟨rfl, rfl, Or.inl rfl, ⟨by rw [hplace]; rfl, rfl⟩, rfl,
      fun h => (by cases h)⟩, hlocal hplace rfl fun h => by cases h⟩
  | acquire thread outcome op hplace =>
    exact Or.inl ⟨thread, _, ⟨rfl, rfl, Or.inl rfl, ⟨by rw [hplace]; rfl, rfl⟩, rfl,
      fun h => (by cases h)⟩, hlocal hplace rfl fun h => by cases h⟩
  | readyNow thread outcome op hplace hready =>
    exact Or.inl ⟨thread, _, ⟨rfl, rfl, Or.inl rfl, ⟨by rw [hplace]; rfl, rfl⟩, rfl,
      fun _ => hready⟩, hlocal hplace rfl fun h => by cases h⟩
  | ensure thread outcome op hplace =>
    exact Or.inl ⟨thread, _, ⟨rfl, rfl, Or.inl rfl, ⟨by rw [hplace]; rfl, rfl⟩, rfl,
      fun h => (by cases h)⟩, hlocal hplace rfl fun h => by cases h⟩
  | setReady thread outcome op hplace =>
    exact Or.inl ⟨thread, _, ⟨rfl, rfl, Or.inr ⟨by rw [hplace]; rfl, rfl⟩,
      ⟨by rw [hplace]; rfl, rfl⟩, rfl, fun _ => Function.update_self _ _ _⟩,
      hlocal hplace rfl fun h => by cases h⟩
  | call thread outcome call hcall => exact Or.inr ⟨thread, outcome, call, rfl, hcall, rfl⟩

/-- A thread outside the window that neither raises the flag nor loses the collection leaves
things as they are. -/
theorem Provided.keep (h : Provided s) (hplaced : s'.place = Function.update s.place thread place)
    (hready : s'.ready = s.ready ∨ (s.place thread).past = true)
    (hwindow : (s.place thread).inWindow = false) (hpast : place.past = false)
    (hcollection : s'.collection = none → s.collection = none) : Provided s' := by
  intro hnone
  rcases h (hcollection hnone) with ⟨other, hother⟩ | ⟨hflags, hpasts⟩
  · refine Or.inl ⟨other, ?_⟩
    have hne : other ≠ thread := fun heq => by
      rw [heq, hwindow] at hother
      cases hother
    rw [hplaced, Function.update_of_ne hne]
    exact hother
  · have hready : s'.ready = s.ready := hready.resolve_right (by rw [hpasts thread]; decide)
    refine Or.inr ⟨fun w => by rw [hready]; exact hflags w, fun other => ?_⟩
    rw [hplaced]
    by_cases hne : other = thread
    · rw [hne, Function.update_self]
      exact hpast
    · rw [Function.update_of_ne hne]
      exact hpasts other

theorem provided_of_isSome (h : s.collection.isSome = true) : Provided s := by
  intro hnone
  rw [hnone] at h
  cases h

theorem provided_of_inWindow (hplaced : s'.place = Function.update s.place thread place)
    (hwindow : place.inWindow = true) : Provided s' :=
  fun _ => Or.inl ⟨thread, by rw [hplaced, Function.update_self]; exact hwindow⟩

/-- A thread that has the flag and stops with no collection left leaves it to the others in the
window. -/
theorem provided_stop_iff (hnone : s'.collection = none)
    (hplaced : s'.place = Function.update s.place thread .idle)
    (hready : s'.ready (worker thread) = true) :
    Provided s' ↔ ¬∀ other, other ≠ thread → (s.place other).inWindow = false := by
  constructor
  · rintro h hothers
    rcases h hnone with ⟨other, hother⟩ | ⟨hflags, -⟩
    · rw [hplaced] at hother
      by_cases hne : other = thread
      · rw [hne, Function.update_self] at hother
        cases hother
      · rw [Function.update_of_ne hne, hothers other hne] at hother
        cases hother
    · rw [hflags] at hready
      cases hready
  · intro hothers _
    push Not at hothers
    obtain ⟨other, hne, hother⟩ := hothers
    refine Or.inl ⟨other, ?_⟩
    rw [hplaced, Function.update_of_ne hne]
    exact Bool.of_not_eq_false hother

theorem flagged_start (collection : Option (Collection V)) :
    Flagged worker (start collection) :=
  fun _ h => by cases h

theorem behindFlag_of_next {existed : Bool} (h : (place.next existed).behindFlag = true) :
    place.behindFlag = true := by
  cases place with
  | operate | clearDelete | clearExists | clearCreate | clearIndex => rfl
  | ensureExists => cases existed <;> cases h
  | ensureIndex op field => cases field <;> cases h
  | idle | checkReady | acquire | recheckReady | ensureCreate | setReady => cases h

/-- A call of the store moves the one thread, and no thread gets behind the flag by it. -/
theorem callStep_frame (worker : ℕ → ℕ) (s : World V) (thread : ℕ) (call : StoreCall V)
    (outcome : Outcome) :
    (callStep worker s thread call outcome).ready = s.ready ∧
    ∃ place, (callStep worker s thread call outcome).place =
        Function.update s.place thread place ∧
      (place.behindFlag = true → (s.place thread).behindFlag = true) := by
  cases heffect : call.effect s.collection with
  | none =>
    rw [callStep_refused heffect]
    exact ⟨rfl, _, rfl, fun h => (by cases h)⟩
  | some reply =>
    cases outcome with
    | ok =>
      rw [callStep_ok heffect]
      exact ⟨rfl, _, rfl, behindFlag_of_next⟩
    | raises landed =>
      rw [callStep_raises heffect]
      exact ⟨rfl, _, rfl, fun h => (by cases h)⟩

theorem Flagged.move (hs : Flagged worker s)
    (hplaced : s'.place = Function.update s.place thread place)
    (hready : ∀ w, s.ready w = true → s'.ready w = true)
    (hplace : place.behindFlag = true → s'.ready (worker thread) = true) : Flagged worker s' := by
  intro other hother
  rw [hplaced] at hother
  by_cases hne : other = thread
  · rw [hne, Function.update_self] at hother
    rw [hne]
    exact hplace hother
  · rw [Function.update_of_ne hne] at hother
    exact hready _ (hs other hother)

theorem flagged_step {a : Action V} (hs : Flagged worker s) (h : step worker s a = some s') :
    Flagged worker s' := by
  rcases step_cases h with ⟨thread, place, hlocal, -⟩ | ⟨thread, outcome, call, -, -, rfl⟩
  · refine hs.move hlocal.placed (fun w hw => ?_) hlocal.behindFlag
    rcases hlocal.ready with hready | ⟨-, hready⟩
    · rw [hready]
      exact hw
    · rw [hready, Function.update_apply]
      split
      · rfl
      · exact hw
  · obtain ⟨hready, place, hplaced, hbehind⟩ := callStep_frame worker s thread call outcome
    refine hs.move hplaced (fun w hw => by rw [hready]; exact hw) fun hplace => ?_
    rw [hready]
    exact hs thread (hbehind hplace)

theorem strands_raises_iff {landed : Bool} : Strands s (.run thread (.raises landed)) ↔
    (∀ other, other ≠ thread → (s.place other).inWindow = false) ∧
      ((s.place thread = .clearDelete ∧ landed = true) ∨
        (s.collection = none ∧ (s.place thread = .clearExists ∨
          (s.place thread = .clearCreate ∧ landed = false)))) := by
  constructor
  · rintro ⟨other, landed', heq, hstrands⟩
    cases heq
    exact hstrands
  · exact fun hstrands => ⟨thread, landed, rfl, hstrands⟩

theorem not_strands_ok : ¬Strands s (.run thread .ok) := by
  rintro ⟨other, landed, heq, -⟩
  cases heq

/-- The store refuses nothing of a thread that could strand the collection. -/
theorem not_strands_of_refused {call : StoreCall V} {outcome : Outcome}
    (hcall : (s.place thread).call = some call) (hrefused : call.effect s.collection = none) :
    ¬Strands s (.run thread outcome) := by
  rintro ⟨other, landed, heq, -, hplace⟩
  cases heq
  rcases hplace with ⟨hplace, -⟩ | ⟨hnone, hplace | ⟨hplace, -⟩⟩
  · rw [hplace] at hcall
    cases hcall
    cases hrefused
  · rw [hplace] at hcall
    cases hcall
    cases hrefused
  · rw [hplace] at hcall
    cases hcall
    rw [StoreCall.effect, hnone] at hrefused
    cases hrefused

theorem provided_refused (hs : Provided s) {call : StoreCall V}
    (hcall : (s.place thread).call = some call) (hrefused : call.effect s.collection = none) :
    Provided (s.stop worker thread) := by
  cases hheld : s.collection with
  | some c => exact provided_of_isSome (by rw [World.stop, hheld]; rfl)
  | none =>
    refine hs.keep rfl (Or.inl rfl) ?_ rfl id
    cases hplace : s.place thread with
    | clearExists =>
      rw [hplace] at hcall
      cases hcall
      cases hrefused
    | clearCreate =>
      rw [hplace] at hcall
      cases hcall
      rw [StoreCall.effect, hheld] at hrefused
      cases hrefused
    | _ => rfl

theorem provided_ok (hs : Provided s) {call : StoreCall V}
    {reply : Option (Collection V) × Bool} (hcall : (s.place thread).call = some call)
    (heffect : call.effect s.collection = some reply) :
    Provided (callStep worker s thread call .ok) := by
  rw [callStep_ok heffect]
  cases hplace : s.place thread with
  | idle | checkReady | acquire | recheckReady | setReady =>
    rw [hplace] at hcall
    cases hcall
  | ensureExists op =>
    rw [hplace] at hcall
    cases hcall
    cases heffect
    cases hheld : s.collection with
    | some c => exact provided_of_isSome rfl
    | none => exact hs.keep rfl (Or.inl rfl) (by rw [hplace]; rfl) rfl fun _ => hheld
  | ensureCreate | clearCreate =>
    rw [hplace] at hcall
    cases hcall
    rw [StoreCall.effect] at heffect
    split at heffect
    · cases heffect
    · cases heffect
      exact provided_of_isSome rfl
  | ensureIndex | clearIndex =>
    rw [hplace] at hcall
    cases hcall
    obtain ⟨c, -, rfl⟩ := Option.map_eq_some_iff.1 heffect
    exact provided_of_isSome rfl
  | operate op =>
    rw [hplace] at hcall
    cases op <;>
    · cases hcall
      obtain ⟨c, -, rfl⟩ := Option.map_eq_some_iff.1 heffect
      exact provided_of_isSome rfl
  | clearDelete => exact provided_of_inWindow rfl rfl
  | clearExists =>
    rw [hplace] at hcall
    cases hcall
    cases heffect
    cases hheld : s.collection with
    | some c => exact provided_of_isSome rfl
    | none => exact provided_of_inWindow rfl rfl

/-- Only a delete leaves no collection where there was one. -/
theorem eq_none_of_effect {held : Option (Collection V)} {call : StoreCall V}
    {reply : Option (Collection V) × Bool} (hcall : call ≠ .deleteCollection)
    (heffect : call.effect held = some reply) (h : reply.1 = none) : held = none := by
  cases held with
  | none => rfl
  | some c =>
    cases call with
    | createCollection => cases heffect
    | deleteCollection => exact absurd rfl hcall
    | collectionExists | createPayloadIndex | queryPoints | upsert | count =>
      cases heffect
      cases h

theorem provided_raises_iff (hs : Provided s) (hflagged : Flagged worker s) {call : StoreCall V}
    {reply : Option (Collection V) × Bool} (hcall : (s.place thread).call = some call)
    (heffect : call.effect s.collection = some reply) (landed : Bool) :
    Provided (callStep worker s thread call (.raises landed)) ↔
      ¬Strands s (.run thread (.raises landed)) := by
  have hkeep : (s.place thread).inWindow = false →
      ((if landed then reply.1 else s.collection) = none → s.collection = none) →
      Provided (callStep worker s thread call (.raises landed)) := fun hwindow hcollection => by
    rw [callStep_raises heffect]
    exact hs.keep rfl (Or.inl rfl) hwindow rfl hcollection
  have hstop : (if landed then reply.1 else s.collection) = none →
      (s.place thread).behindFlag = true →
      (Provided (callStep worker s thread call (.raises landed)) ↔
        ¬∀ other, other ≠ thread → (s.place other).inWindow = false) := fun hnone hbehind => by
    rw [callStep_raises heffect]
    exact provided_stop_iff hnone rfl (hflagged thread hbehind)
  rw [strands_raises_iff]
  cases hplace : s.place thread with
  | idle | checkReady | acquire | recheckReady | setReady =>
    rw [hplace] at hcall
    cases hcall
  | ensureExists | ensureCreate | ensureIndex | operate | clearIndex =>
    rw [hplace] at hkeep
    refine iff_of_true (hkeep rfl fun hnone => ?_)
      (by rintro ⟨-, ⟨h, -⟩ | ⟨-, h | ⟨h, -⟩⟩⟩ <;> cases h)
    cases landed with
    | true =>
      refine eq_none_of_effect (fun heq => ?_) heffect hnone
      rw [hplace, heq] at hcall
      revert hcall
      first
        | exact fun h => by cases h
        | rename_i op
          cases op <;> exact fun h => by cases h
    | false => exact hnone
  | clearDelete =>
    rw [hplace] at hcall hkeep hstop
    cases hcall
    cases heffect
    cases landed with
    | true =>
      rw [hstop rfl rfl]
      exact not_congr (and_iff_left (Or.inl ⟨rfl, rfl⟩)).symm
    | false =>
      refine iff_of_true (hkeep rfl id) ?_
      rintro ⟨-, ⟨-, h⟩ | ⟨-, h | ⟨h, -⟩⟩⟩ <;> cases h
  | clearExists =>
    rw [hplace] at hcall hstop
    cases hcall
    cases heffect
    rw [ite_self] at hstop
    cases hheld : s.collection with
    | none =>
      rw [hstop hheld rfl]
      exact not_congr (and_iff_left (Or.inr ⟨rfl, Or.inl rfl⟩)).symm
    | some c =>
      refine iff_of_true ?_ (by rintro ⟨-, ⟨h, -⟩ | ⟨h, -⟩⟩ <;> cases h)
      rw [callStep_raises rfl]
      exact provided_of_isSome (by rw [ite_self, hheld]; rfl)
  | clearCreate =>
    rw [hplace] at hcall hstop
    cases hcall
    rw [StoreCall.effect] at heffect
    split at heffect
    · cases heffect
    rename_i hheld
    rw [Bool.not_eq_true, Option.isSome_eq_false_iff, Option.isNone_iff_eq_none] at hheld
    cases heffect
    cases landed with
    | true =>
      refine iff_of_true ?_ (by rintro ⟨-, ⟨h, -⟩ | ⟨-, h | ⟨-, h⟩⟩⟩ <;> cases h)
      rw [callStep_raises (by rw [StoreCall.effect, hheld]; rfl)]
      exact provided_of_isSome rfl
    | false =>
      rw [hstop hheld rfl]
      exact not_congr (and_iff_left (Or.inr ⟨hheld, Or.inr ⟨rfl, rfl⟩⟩)).symm

theorem provided_step_iff {a : Action V} (hs : Provided s) (hflagged : Flagged worker s)
    (h : step worker s a = some s') : Provided s' ↔ ¬Strands s a := by
  rcases step_cases h with ⟨thread, place, hlocal, hnot⟩ | ⟨thread, outcome, call, rfl, hcall, rfl⟩
  · refine iff_of_true (hs.keep hlocal.placed (hlocal.ready.imp id And.left) hlocal.inWindow.1
      hlocal.past fun hnone => ?_) hnot
    rw [← hlocal.collection]
    exact hnone
  · cases heffect : call.effect s.collection with
    | none =>
      rw [callStep_refused heffect]
      exact iff_of_true (provided_refused hs hcall heffect) (not_strands_of_refused hcall heffect)
    | some reply =>
      cases outcome with
      | ok => exact iff_of_true (provided_ok hs hcall heffect) not_strands_ok
      | raises landed => exact provided_raises_iff hs hflagged hcall heffect landed

/-- Whatever the threads of the workers do between each other's steps and whichever calls of the
store raise, a worker with the flag finds a collection except while a clear is about to create
it again, in every state of a run, if and only if no clear raises after it has deleted the
collection and before it is created again with no other clear there to create it. -/
theorem available {collection : Option (Collection V)} {run : List (Action V)}
    (hrun : exec (step worker) (start collection) run = some s) :
    (∀ pre post u, run = pre ++ post → exec (step worker) (start collection) pre = some u →
      Provided u) ↔ Along (step worker) (fun u a => ¬Strands u a) (start collection) run :=
  forall_reached_iff_along (J := Flagged worker) (fun _ _ _ => flagged_step)
    (fun _ _ _ hflagged hs h => provided_step_iff hs hflagged h) (flagged_start collection)
    (fun _ => Or.inr ⟨fun _ => rfl, fun _ => rfl⟩) hrun

/-- A clear of one thread while another searches. -/
theorem available_clear : ∃ s, exec (step fun _ => 0) (start none : World ℕ)
      [.begin 0 .clear, .begin 1 .find, .run 0 .ok, .run 0 .ok, .run 1 .ok, .run 0 .ok] = some s ∧
    Provided s := by
  obtain ⟨s, hs⟩ : ∃ s, exec (step fun _ => 0) (start none : World ℕ)
      [.begin 0 .clear, .begin 1 .find, .run 0 .ok, .run 0 .ok, .run 1 .ok, .run 0 .ok] = some s :=
    ⟨_, rfl⟩
  refine ⟨s, hs, (available hs).2 (along_of_forall_mem (fun a ha u => ?_) _) _ [] s
    (List.append_nil _).symm hs⟩
  have hok : ∀ a ∈ [Action.begin 0 .clear, .begin 1 (.find : Operation ℕ), .run 0 .ok, .run 0 .ok,
      .run 1 .ok, .run 0 .ok], ∀ thread, a ≠ .run thread (.raises true) ∧
        a ≠ .run thread (.raises false) := by
    simp
  rintro ⟨thread, landed, rfl, -⟩
  cases landed
  · exact (hok _ ha thread).2 rfl
  · exact (hok _ ha thread).1 rfl

end Window

/-! ## A clear that strands the collection -/

/-- The thread may still get to create the collection. -/
def Place.mayCreate : Place V → Bool
  | ensureExists _ | ensureCreate _ | clearDelete | clearExists | clearCreate => true
  | _ => false

/-- There is no collection, every worker has the flag and no thread is on its way to create the
collection. -/
structure Lost (worker : ℕ → ℕ) (s : World V) : Prop where
  collection : s.collection = none
  ready : ∀ thread, s.ready (worker thread) = true
  places : ∀ thread, (s.place thread).mayCreate = false

section Lost

variable {worker : ℕ → ℕ} {s s' : World V} {thread : ℕ}

theorem Lost.refused (hs : Lost worker s) {call : StoreCall V}
    (hcall : (s.place thread).call = some call) : call.effect s.collection = none := by
  have hplace := hs.places thread
  rw [hs.collection]
  cases heq : s.place thread with
  | idle | checkReady | acquire | recheckReady | setReady =>
    rw [heq] at hcall
    cases hcall
  | ensureExists | ensureCreate | clearDelete | clearExists | clearCreate =>
    rw [heq] at hplace
    cases hplace
  | ensureIndex | clearIndex =>
    rw [heq] at hcall
    cases hcall
    rfl
  | operate op =>
    rw [heq] at hcall
    cases op <;>
    · cases hcall
      rfl

theorem Lost.move (hs : Lost worker s) {place : Place V} {ready : ℕ → Bool} {lock : ℕ → Option ℕ}
    (hplace : place.mayCreate = false) (hready : ∀ thread, ready (worker thread) = true) :
    Lost worker ⟨s.collection, ready, lock, Function.update s.place thread place⟩ := by
  refine ⟨hs.collection, hready, fun other => ?_⟩
  dsimp only
  by_cases hother : other = thread
  · rw [hother, Function.update_self]
    exact hplace
  · rw [Function.update_of_ne hother]
    exact hs.places other

theorem lost_step {a : Action V} (hs : Lost worker s) (h : step worker s a = some s') :
    Lost worker s' := by
  cases steps_of_step h with
  | begin | ready | notReady | acquire | readyNow => exact hs.move rfl hs.ready
  | ensure thread outcome op _ hready =>
    rw [hs.ready thread] at hready
    cases hready
  | setReady =>
    refine hs.move rfl fun other => ?_
    rw [Function.update_apply]
    split
    · rfl
    · exact hs.ready other
  | call thread outcome call hcall =>
    rw [callStep_refused (hs.refused hcall)]
    exact hs.move rfl hs.ready

/-- A clear that strands the collection loses it, where the workers have the flag and no thread
but this one is on its way to create the collection. -/
theorem lost_of_strands {outcome : Outcome} (hstrands : Strands s (.run thread outcome))
    (h : step worker s (.run thread outcome) = some s')
    (hready : ∀ other, s.ready (worker other) = true)
    (hothers : ∀ other, other ≠ thread → (s.place other).mayCreate = false) : Lost worker s' := by
  rcases step_cases h with ⟨other, place, -, hnot⟩ | ⟨other, outcome', call, heq, hcall, rfl⟩
  · exact absurd hstrands hnot
  cases heq
  obtain ⟨other, landed, heq, -, hplace⟩ := hstrands
  cases heq
  have hmove : ∀ {lock : ℕ → Option ℕ}, Lost worker
      ⟨none, s.ready, lock, Function.update s.place thread .idle⟩ := by
    refine ⟨rfl, hready, fun other => ?_⟩
    dsimp only
    by_cases hother : other = thread
    · rw [hother, Function.update_self]
      rfl
    · rw [Function.update_of_ne hother]
      exact hothers other hother
  rcases hplace with ⟨hplace, rfl⟩ | ⟨hnone, hplace | ⟨hplace, rfl⟩⟩
  · rw [hplace] at hcall
    cases hcall
    rw [callStep_raises rfl]
    exact hmove
  · rw [hplace] at hcall
    cases hcall
    rw [callStep_raises rfl, hnone, ite_self]
    exact hmove
  · rw [hplace] at hcall
    cases hcall
    rw [callStep_raises (by rw [StoreCall.effect, hnone]; rfl), hnone]
    exact hmove

/-- Once a clear has raised where it strands the collection, with the flag raised in the workers
and no other thread on its way to create the collection, it is gone for good : every call that
any later operation makes, another clear included, is refused, whatever the threads do. -/
theorem lost_for_good {outcome : Outcome} {run : List (Action V)} {t : World V}
    (hstrands : Strands s (.run thread outcome))
    (hready : ∀ other, s.ready (worker other) = true)
    (hothers : ∀ other, other ≠ thread → (s.place other).mayCreate = false)
    (hrun : exec (step worker) s (.run thread outcome :: run) = some t) :
    t.collection = none ∧ ∀ other call, (t.place other).call = some call →
      call.effect t.collection = none := by
  obtain ⟨s', hs', ht⟩ := exec_cons.1 hrun
  have hlost := invariant (I := Lost worker) (fun _ _ _ hs h => lost_step hs h)
    (lost_of_strands hstrands hs' hready hothers) ht
  exact ⟨hlost.collection, fun _ _ => hlost.refused⟩

end Lost

/-- The call of a clear that creates the collection again raises. What the next thread records
is refused. -/
theorem lost_for_good_recreation : ∃ t,
    exec (step fun _ => 0) (⟨none, fun _ => true, fun _ => none,
      Function.update (fun _ => .idle) 0 .clearCreate⟩ : World ℕ)
      [.run 0 (.raises false), .begin 1 (.record ⟨7, "n", 4, "k"⟩), .run 1 .ok] = some t ∧
    (StoreCall.upsert ⟨7, "n", 4, "k"⟩).effect t.collection = none := by
  have hidle : ∀ other : ℕ, other ≠ 0 →
      Function.update (fun _ => Place.idle) 0 .clearCreate other = (.idle : Place ℕ) :=
    fun other hother => Function.update_of_ne hother _ _
  obtain ⟨t, ht⟩ : ∃ t, exec (step fun _ => 0) (⟨none, fun _ => true, fun _ => none,
      Function.update (fun _ => .idle) 0 .clearCreate⟩ : World ℕ)
      [.run 0 (.raises false), .begin 1 (.record ⟨7, "n", 4, "k"⟩), .run 1 .ok] = some t :=
    ⟨_, rfl⟩
  refine ⟨t, ht, (lost_for_good ⟨0, false, rfl, fun other hother => ?_,
    Or.inr ⟨rfl, Or.inr ⟨rfl, rfl⟩⟩⟩ (fun _ => rfl) (fun other hother => ?_) ht).2 1 _ ?_⟩
  · dsimp only
    rw [hidle other hother]
    rfl
  · dsimp only
    rw [hidle other hother]
    rfl
  · cases ht
    rfl

/-! ## What is found -/

/-- The loop of `find_candidates` over what the store answers. -/
def findCandidates (similarityThreshold : ℚ) : List (Point V × ℚ) → List String
  | [] => []
  | (point, score) :: rest =>
    if score < similarityThreshold then []
    else point.cacheKey :: findCandidates similarityThreshold rest

def candidateLimit : ℕ := 5

/-- The points of a partition. -/
def partitionPoints (points : List (Point V)) (cacheNamespace : String) (topK : ℕ) :
    List (Point V) :=
  points.filter fun point => point.cacheNamespace = cacheNamespace && point.topK = topK

/-- What `query_points` answers : the nearest points that the filter lets through, with their
scores. -/
structure Nearest (score : Point V → ℚ) (points : List (Point V)) (results : List (Point V × ℚ)) :
    Prop where
  scored : ∀ result ∈ results, result.2 = score result.1
  sorted : results.Pairwise fun r r' => r'.2 ≤ r.2
  length : results.length = min candidateLimit points.length
  others : ∃ rest, (results.map (·.1) ++ rest).Perm points ∧
    ∀ point ∈ rest, ∀ result ∈ results, score point ≤ result.2

theorem findCandidates_eq {similarityThreshold : ℚ} {results : List (Point V × ℚ)}
    (h : results.Pairwise fun r r' => r'.2 ≤ r.2) :
    findCandidates similarityThreshold results =
      (results.filter (similarityThreshold ≤ ·.2)).map (·.1.cacheKey) := by
  induction results with
  | nil => rfl
  | cons result rest ih =>
    obtain ⟨hfirst, hrest⟩ := List.pairwise_cons.1 h
    rw [findCandidates]
    split
    · rename_i hlow
      rw [List.filter_cons_of_neg (by simpa using hlow), List.filter_eq_nil_iff.2, List.map_nil]
      intro r hr
      have hle := (hfirst r hr).trans_lt hlow
      simpa using hle
    · rename_i hhigh
      rw [List.filter_cons_of_pos (by simpa using hhigh), List.map_cons, ih hrest]

/-- The points in the collection. -/
def World.points (s : World V) : List (Point V) :=
  s.collection.elim [] (·.points)

/-- The call of the store that lands with the step. -/
def landing (s : World V) : Action V → Option (StoreCall V)
  | .begin _ _ => none
  | .run thread outcome =>
    if outcome = .raises false then none
    else (s.place thread).call.filter fun call => (call.effect s.collection).isSome

/-- The points after a call that lands. -/
def StoreCall.pointsAfter (points : List (Point V)) : StoreCall V → List (Point V)
  | upsert point => points ++ [point]
  | deleteCollection => []
  | _ => points

section Points

variable {worker : ℕ → ℕ} {s s' t : World V}

theorem effect_points {held : Option (Collection V)} {call : StoreCall V}
    {reply : Option (Collection V) × Bool} (h : call.effect held = some reply) :
    reply.1.elim [] (·.points) = call.pointsAfter (held.elim [] (·.points)) := by
  cases call with
  | collectionExists | deleteCollection =>
    cases h
    rfl
  | createCollection =>
    rw [StoreCall.effect] at h
    split at h
    · cases h
    · rename_i hheld
      cases h
      cases held with
      | none => rfl
      | some c => exact absurd rfl hheld
  | createPayloadIndex | queryPoints | upsert | count =>
    obtain ⟨c, rfl, rfl⟩ := Option.map_eq_some_iff.1 h
    rfl

/-- A step changes the points by the call that lands. -/
theorem points_step {a : Action V} (h : step worker s a = some s') :
    s'.points = (landing s a).elim s.points (StoreCall.pointsAfter s.points) := by
  have hlocal : ∀ {u : World V} {thread outcome place}, s.place thread = place →
      place.call = none → u.collection = s.collection → u.points =
        (landing s (.run thread outcome)).elim s.points (StoreCall.pointsAfter s.points) := by
    intro u thread outcome place hplace hcall hcollection
    rw [landing, hplace, hcall, World.points, hcollection]
    split <;> rfl
  cases steps_of_step h with
  | begin => rfl
  | ready _ _ _ hplace => exact hlocal hplace rfl rfl
  | notReady _ _ _ hplace => exact hlocal hplace rfl rfl
  | acquire _ _ _ hplace => exact hlocal hplace rfl rfl
  | readyNow _ _ _ hplace => exact hlocal hplace rfl rfl
  | ensure _ _ _ hplace => exact hlocal hplace rfl rfl
  | setReady _ _ _ hplace => exact hlocal hplace rfl rfl
  | call thread outcome call hcall =>
    rw [landing, hcall]
    cases heffect : call.effect s.collection with
    | none =>
      rw [callStep_refused heffect, Option.filter_some, heffect]
      split <;> rfl
    | some reply =>
      rw [Option.filter_some, heffect]
      cases outcome with
      | ok =>
        rw [callStep_ok heffect]
        exact effect_points heffect
      | raises landed =>
        rw [callStep_raises heffect]
        cases landed with
        | true => exact effect_points heffect
        | false => rfl

/-- The points of a run : those that a record added, and no delete since. -/
theorem mem_points_exec {run : List (Action V)} {point : Point V}
    (hrun : exec (step worker) s run = some t) :
    point ∈ t.points ↔
      (∃ pre a post u u', run = pre ++ a :: post ∧ exec (step worker) s pre = some u ∧
        step worker u a = some u' ∧ landing u a = some (.upsert point) ∧
        Along (step worker) (fun v b => landing v b ≠ some .deleteCollection) u' post) ∨
      (point ∈ s.points ∧
        Along (step worker) (fun v b => landing v b ≠ some .deleteCollection) s run) := by
  refine holds_iff_set_and_kept (G := fun u => point ∈ u.points) (fun u a u' hstep => ?_) hrun
  rw [points_step hstep]
  cases landing u a with
  | none => simp
  | some call =>
    cases call <;> simp [StoreCall.pointsAfter, or_comm, eq_comm]

/-- What `find_candidates` returns in any state of any run is the keys of the nearest points of
the partition that clear the threshold, the nearest first and `candidateLimit` of them at most ;
every one was recorded for the same namespace and `top_k`, and no delete of a clear has landed
since. -/
theorem candidates {run : List (Action V)} {score : Point V → ℚ}
    {results : List (Point V × ℚ)} {cacheNamespace : String} {topK : ℕ} {threshold : ℚ}
    (hrun : exec (step worker) (start none) run = some t)
    (hnearest : Nearest score (partitionPoints t.points cacheNamespace topK) results) :
    ∃ found : List (Point V), findCandidates threshold results = found.map (·.cacheKey) ∧
      found.length ≤ candidateLimit ∧ found.Pairwise (fun p p' => score p' ≤ score p) ∧
      (∀ point ∈ found, threshold ≤ score point ∧ point.cacheNamespace = cacheNamespace ∧
        point.topK = topK ∧ ∃ pre a post u u', run = pre ++ a :: post ∧
          exec (step worker) (start none) pre = some u ∧ step worker u a = some u' ∧
          landing u a = some (.upsert point) ∧
          Along (step worker) (fun v b => landing v b ≠ some .deleteCollection) u' post) ∧
      ∀ point ∈ t.points, point.cacheNamespace = cacheNamespace → point.topK = topK →
        threshold ≤ score point → point ∈ found ∨
          found.length = candidateLimit ∧ ∀ other ∈ found, score point ≤ score other := by
  obtain ⟨rest, hperm, hrest⟩ := hnearest.others
  have hmem : ∀ {point}, point ∈ partitionPoints t.points cacheNamespace topK ↔
      point ∈ t.points ∧ point.cacheNamespace = cacheNamespace ∧ point.topK = topK := by
    simp [partitionPoints]
  refine ⟨(results.filter (threshold ≤ ·.2)).map (·.1), ?_, ?_, ?_, ?_, ?_⟩
  · rw [findCandidates_eq hnearest.sorted, List.map_map]
    rfl
  · rw [List.length_map]
    refine (List.length_filter_le _ _).trans ?_
    rw [hnearest.length]
    exact min_le_left _ _
  · rw [List.pairwise_map]
    refine ((hnearest.sorted.filter _).imp_of_mem ?_)
    intro r r' hr hr' hle
    rw [← hnearest.scored r (List.mem_filter.1 hr).1,
      ← hnearest.scored r' (List.mem_filter.1 hr').1]
    exact hle
  · intro point hpoint
    obtain ⟨r, hr, rfl⟩ := List.mem_map.1 hpoint
    obtain ⟨hresult, hthreshold⟩ := List.mem_filter.1 hr
    rw [decide_eq_true_eq, hnearest.scored r hresult] at hthreshold
    obtain ⟨hheld, hnamespace, htopK⟩ := hmem.1
      (hperm.subset (List.mem_append_left rest (List.mem_map_of_mem (f := Prod.fst) hresult)))
    refine ⟨hthreshold, hnamespace, htopK, ?_⟩
    exact ((mem_points_exec hrun).1 hheld).resolve_right fun h => List.not_mem_nil h.1
  · intro point hheld hnamespace htopK hthreshold
    rcases List.mem_append.1 (hperm.symm.subset (hmem.2 ⟨hheld, hnamespace, htopK⟩)) with
      hfound | hleft
    · obtain ⟨r, hr, rfl⟩ := List.mem_map.1 hfound
      refine Or.inl (List.mem_map_of_mem (List.mem_filter.2 ⟨hr, ?_⟩))
      rw [decide_eq_true_eq, hnearest.scored r hr]
      exact hthreshold
    · -- the answer is full, and all of it clears the threshold
      have hall : results.filter (threshold ≤ ·.2) = results :=
        List.filter_eq_self.2 fun r hr => by
          rw [decide_eq_true_eq]
          exact hthreshold.trans (hrest point hleft r hr)
      have hlength := hperm.length_eq
      have hfull := hnearest.length
      have hpos := List.length_pos_of_mem hleft
      rw [List.length_append, List.length_map] at hlength
      refine Or.inr ⟨?_, fun other hother => ?_⟩
      · rw [hall, List.length_map]
        omega
      · rw [hall] at hother
        obtain ⟨r, hr, rfl⟩ := List.mem_map.1 hother
        rw [← hnearest.scored r hr]
        exact hrest point hleft r hr

theorem candidates_recorded : ∃ t : World ℕ, exec (step fun _ => 0) (start none)
      [.begin 0 (.record ⟨7, "n", 4, "k"⟩), .run 0 .ok, .run 0 .ok, .run 0 .ok, .run 0 .ok,
        .run 0 .ok, .run 0 .ok, .run 0 .ok, .run 0 .ok, .run 0 .ok] = some t ∧
    ∃ found : List (Point ℕ), findCandidates (1 / 2) [(⟨7, "n", 4, "k"⟩, 1)] =
      found.map (·.cacheKey) ∧ found.length ≤ candidateLimit := by
  obtain ⟨t, ht⟩ : ∃ t : World ℕ, exec (step fun _ => 0) (start none)
      [.begin 0 (.record ⟨7, "n", 4, "k"⟩), .run 0 .ok, .run 0 .ok, .run 0 .ok, .run 0 .ok,
        .run 0 .ok, .run 0 .ok, .run 0 .ok, .run 0 .ok, .run 0 .ok] = some t := ⟨_, rfl⟩
  have hnearest : Nearest (fun _ => 1) (partitionPoints t.points "n" 4)
      [((⟨7, "n", 4, "k"⟩ : Point ℕ), 1)] := by
    cases ht
    exact ⟨by decide, List.pairwise_singleton _ _, rfl, [], List.Perm.refl _,
      fun _ h => absurd h List.not_mem_nil⟩
  exact ⟨t, ht, (candidates ht hnearest).imp fun found hfound => ⟨hfound.1, hfound.2.1⟩⟩

end Points

end EnterpriseRag.SemanticCache
