import EnterpriseRag.Library.Dict
import EnterpriseRag.Library.PrefixCode
import EnterpriseRag.Library.Transition
import Mathlib.Algebra.Order.Field.Basic
import Mathlib.Algebra.Order.Field.Rat
import Mathlib.Data.List.Count

/-!
# The query cache

`QueryCacheService` keeps the entries of all its tiers in one key-value store and the counters
of each tier in the process. A call reads or writes the store first and counts under a lock
afterwards, and a clear holds the lock while it goes through its tiers : it asks the store for
the keys of a tier, deletes these keys and resets the counters of the tier. Any number of calls
of any number of workers run between each other's steps, time passes, and every call of the
store may fail, a write or a delete also after it has landed.

`holds_iff` says what the store then holds under a key of a tier : what the last write of that
key stored, until it expires or a clear deletes the key. `not_held_after_clear` is what a clear
is for. `counted` is what the counters are.
-/

namespace EnterpriseRag

open Transition

inductive CacheTier
  | embedding
  | ragAnswer
  | sqlGen
  | sqlResult
  | intent
  deriving DecidableEq, Repr

namespace CacheTier

def value : CacheTier → String
  | embedding => "embedding"
  | ragAnswer => "rag_answer"
  | sqlGen => "sql_gen"
  | sqlResult => "sql_result"
  | intent => "intent"

def all : List CacheTier :=
  [embedding, ragAnswer, sqlGen, sqlResult, intent]

theorem mem_all (tier : CacheTier) : tier ∈ all := by
  cases tier <;> decide

/-- What the keys of the tier begin with. -/
def keyPrefix (tier : CacheTier) : List Char :=
  (tier.value ++ ":").toList

end CacheTier

/-! ## The store -/

/-- What the store holds under a key, and until when. -/
structure StoredValue where
  value : String
  deadline : ℕ
  deriving DecidableEq, Repr

/-- The entries of the store. -/
abbrev RedisStore := List (String × StoredValue)

namespace RedisStore

variable (store : RedisStore) (now : ℕ)

/-- `GET`. -/
def get (key : String) : Option String :=
  match store.lookup key with
  | some stored => if now < stored.deadline then some stored.value else none
  | none => none

/-- `SET` with `EX`. An expiry of no seconds is refused. -/
def set (key value : String) (ttlSeconds : ℕ) : Option RedisStore :=
  if ttlSeconds = 0 then none else some (Dict.set store key ⟨value, now + ttlSeconds⟩)

/-- `KEYS` of a prefix without wildcards, and `*`. -/
def keys (start : List Char) : List String :=
  (store.filter fun entry => now < entry.2.deadline && start.isPrefixOf entry.1.toList).map (·.1)

/-- `DEL`. -/
def delete (keys : List String) : RedisStore :=
  store.filter (·.1 ∉ keys)

end RedisStore

/-! ## The service -/

inductive CountKind
  | hit
  | miss
  | set
  deriving DecidableEq, Repr

/-- What a call is going to count. -/
@[ext]
structure PendingCount where
  worker : ℕ
  tier : CacheTier
  kind : CountKind
  deriving DecidableEq, Repr

/-- A clear between its steps. It holds the lock of its worker. -/
inductive Clearing
  | listing (tiers : List CacheTier)
  | deleting (tier : CacheTier) (keys : List String) (tiers : List CacheTier)
  deriving DecidableEq, Repr

structure QueryCacheWorld where
  now : ℕ
  store : RedisStore
  /-- The calls that have read or written the store and have not counted yet. -/
  pending : List PendingCount
  clearing : ℕ → Option Clearing
  counters : ℕ → CacheTier → CountKind → ℕ

inductive QueryCacheAction
  | tick (seconds : ℕ)
  | get (worker : ℕ) (tier : CacheTier) (key : String)
  | set (worker : ℕ) (tier : CacheTier) (key value : String)
  /-- A write that raises, and may have landed. -/
  | setRaises (tier : CacheTier) (key value : String) (landed : Bool)
  | count (call : PendingCount)
  | clearTiers (worker : ℕ) (tiers : List CacheTier)
  | list (worker : ℕ)
  | delete (worker : ℕ)
  | finish (worker : ℕ)
  /-- A clear that raises, at a delete perhaps after it has landed. -/
  | clearRaises (worker : ℕ) (landed : Bool)
  deriving DecidableEq, Repr

namespace QueryCacheWorld

variable (s : QueryCacheWorld)

def withClearing (worker : ℕ) (clearing : Option Clearing) : QueryCacheWorld :=
  { s with clearing := Function.update s.clearing worker clearing }

def withCounter (worker : ℕ) (tier : CacheTier) (counters : CountKind → ℕ) : QueryCacheWorld :=
  { s with
    counters := Function.update s.counters worker
      (Function.update (s.counters worker) tier counters) }

theorem withCounter_counters (worker other : ℕ) (tier tier' : CacheTier)
    (counters : CountKind → ℕ) (kind : CountKind) :
    (s.withCounter worker tier counters).counters other tier' kind =
      if other = worker ∧ tier' = tier then counters kind else s.counters other tier' kind := by
  rw [withCounter]
  dsimp only
  by_cases hworker : other = worker
  · subst hworker
    rw [Function.update_self]
    by_cases htier : tier' = tier
    · subst htier
      rw [Function.update_self, if_pos ⟨rfl, rfl⟩]
    · rw [Function.update_of_ne htier, if_neg fun h => htier h.2]
  · rw [Function.update_of_ne hworker, if_neg fun h => hworker h.1]

end QueryCacheWorld

namespace QueryCacheService

/-- `_namespaced_key`. -/
def namespacedKey (tier : CacheTier) (key : String) : String :=
  tier.value ++ ":" ++ key

/-- What `get` counts. -/
def readKind (s : QueryCacheWorld) (tier : CacheTier) (key : String) : CountKind :=
  if (s.store.get s.now (namespacedKey tier key)).isSome then .hit else .miss

variable (ttlFor : CacheTier → ℕ)

def step (s : QueryCacheWorld) : QueryCacheAction → Option QueryCacheWorld
  | .tick seconds => some { s with now := s.now + seconds }
  | .get worker tier key =>
    some { s with pending := ⟨worker, tier, readKind s tier key⟩ :: s.pending }
  | .set worker tier key value =>
    (s.store.set s.now (namespacedKey tier key) value (ttlFor tier)).map fun store =>
      { s with store := store, pending := ⟨worker, tier, .set⟩ :: s.pending }
  | .setRaises tier key value landed =>
    if landed then
      (s.store.set s.now (namespacedKey tier key) value (ttlFor tier)).map fun store =>
        { s with store := store }
    else some s
  | .count call =>
    if call ∈ s.pending ∧ s.clearing call.worker = none then
      let counters := s.counters call.worker call.tier
      some { s.withCounter call.worker call.tier
          (Function.update counters call.kind (counters call.kind + 1)) with
        pending := s.pending.erase call }
    else none
  | .clearTiers worker tiers =>
    if s.clearing worker = none then some (s.withClearing worker (some (.listing tiers)))
    else none
  | .list worker =>
    match s.clearing worker with
    | some (.listing (tier :: tiers)) =>
      let keys := s.store.keys s.now tier.keyPrefix
      some (s.withClearing worker (some (.deleting tier keys tiers)))
    | _ => none
  | .delete worker =>
    match s.clearing worker with
    | some (.deleting tier keys tiers) =>
      some { (s.withClearing worker (some (.listing tiers))).withCounter worker tier (fun _ => 0)
        with store := s.store.delete keys }
    | _ => none
  | .finish worker =>
    if s.clearing worker = some (.listing []) then some (s.withClearing worker none) else none
  | .clearRaises worker landed =>
    match s.clearing worker with
    | some (.deleting _ keys _) =>
      some { s.withClearing worker none with
        store := if landed then s.store.delete keys else s.store }
    | some (.listing _) => some (s.withClearing worker none)
    | none => none

/-- Nothing is stored, counted or under way. -/
def start : QueryCacheWorld where
  now := 0
  store := []
  pending := []
  clearing _ := none
  counters _ _ _ := 0

/-- `hit_rate`. -/
def hitRate (counters : CountKind → ℕ) : ℚ :=
  if counters .hit + counters .miss = 0 then 0
  else counters .hit / (counters .hit + counters .miss : ℕ)

/-! ## Keys of tiers -/

theorem toList_namespacedKey (tier : CacheTier) (key : String) :
    (namespacedKey tier key).toList = tier.keyPrefix ++ key.toList := by
  rw [namespacedKey, String.toList_append, CacheTier.keyPrefix]

theorem keyPrefix_apart : (CacheTier.all.map CacheTier.keyPrefix).Pairwise PrefixCode.Apart := by
  decide

theorem keyPrefix_inj {tier tier' : CacheTier} (h : tier.keyPrefix = tier'.keyPrefix) :
    tier = tier' := by
  revert h
  cases tier <;> cases tier' <;> decide

/-- A tier and a key of it settle the key of the store. -/
theorem namespacedKey_inj {tier tier' : CacheTier} {key key' : String}
    (h : namespacedKey tier key = namespacedKey tier' key') : tier = tier' ∧ key = key' := by
  have hlist := congrArg String.toList h
  rw [toList_namespacedKey, toList_namespacedKey] at hlist
  have hhead := PrefixCode.head_eq keyPrefix_apart
    (List.mem_map_of_mem (CacheTier.mem_all tier)) (List.mem_map_of_mem (CacheTier.mem_all tier'))
    hlist
  obtain rfl := keyPrefix_inj hhead
  exact ⟨rfl, String.toList_inj.1 (List.append_cancel_left hlist)⟩

/-- The prefix of a tier is at the front of its own keys only. -/
theorem isPrefixOf_namespacedKey {tier tier' : CacheTier} {key : String} :
    tier.keyPrefix.isPrefixOf (namespacedKey tier' key).toList = true ↔ tier = tier' := by
  rw [List.isPrefixOf_iff_prefix, toList_namespacedKey]
  constructor
  · rintro ⟨rest, hrest⟩
    exact keyPrefix_inj (PrefixCode.head_eq keyPrefix_apart
      (List.mem_map_of_mem (CacheTier.mem_all tier))
      (List.mem_map_of_mem (CacheTier.mem_all tier')) hrest)
  · rintro rfl
    exact List.prefix_append _ _

/-! ## What a step does to the store -/

/-- The write that lands. -/
def landing : QueryCacheAction → Option (CacheTier × String × String)
  | .set _ tier key value => some (tier, key, value)
  | .setRaises tier key value landed => if landed then some (tier, key, value) else none
  | _ => none

/-- The keys that a clear deletes with this step. -/
def deleted (s : QueryCacheWorld) : QueryCacheAction → List String
  | .delete worker =>
    match s.clearing worker with
    | some (.deleting _ keys _) => keys
    | _ => []
  | .clearRaises worker landed =>
    match s.clearing worker with
    | some (.deleting _ keys _) => if landed then keys else []
    | _ => []
  | _ => []

variable {ttlFor : CacheTier → ℕ} {s s' t : QueryCacheWorld} {a : QueryCacheAction}
  {tier : CacheTier} {key value : String} {stored : StoredValue}

/-- The store after a write of the tier. -/
def written (ttlFor : CacheTier → ℕ) (s : QueryCacheWorld) (tier : CacheTier)
    (key value : String) : RedisStore :=
  Dict.set s.store (namespacedKey tier key) ⟨value, s.now + ttlFor tier⟩

theorem eq_written {store : RedisStore}
    (h : s.store.set s.now (namespacedKey tier key) value (ttlFor tier) = some store) :
    store = written ttlFor s tier key value := by
  rw [RedisStore.set] at h
  split at h
  · cases h
  · exact (Option.some.inj h).symm

/-- All that a step can do. -/
inductive Steps (ttlFor : CacheTier → ℕ) (s : QueryCacheWorld) :
    QueryCacheAction → QueryCacheWorld → Prop
  | tick (seconds : ℕ) : Steps ttlFor s (.tick seconds) { s with now := s.now + seconds }
  | get (worker : ℕ) (tier : CacheTier) (key : String) :
    Steps ttlFor s (.get worker tier key)
      { s with pending := ⟨worker, tier, readKind s tier key⟩ :: s.pending }
  | set (worker : ℕ) (tier : CacheTier) (key value : String) :
    Steps ttlFor s (.set worker tier key value)
      { s with
        store := written ttlFor s tier key value
        pending := ⟨worker, tier, .set⟩ :: s.pending }
  | setLanded (tier : CacheTier) (key value : String) :
    Steps ttlFor s (.setRaises tier key value true)
      { s with store := written ttlFor s tier key value }
  | setLost (tier : CacheTier) (key value : String) :
    Steps ttlFor s (.setRaises tier key value false) s
  | count (call : PendingCount) (hpending : call ∈ s.pending) :
    Steps ttlFor s (.count call)
      { s.withCounter call.worker call.tier (Function.update (s.counters call.worker call.tier)
          call.kind (s.counters call.worker call.tier call.kind + 1)) with
        pending := s.pending.erase call }
  | clearTiers (worker : ℕ) (tiers : List CacheTier) (hfree : s.clearing worker = none) :
    Steps ttlFor s (.clearTiers worker tiers) (s.withClearing worker (some (.listing tiers)))
  | list (worker : ℕ) (tier : CacheTier) (tiers : List CacheTier)
    (hlisting : s.clearing worker = some (.listing (tier :: tiers))) :
    Steps ttlFor s (.list worker) (s.withClearing worker
      (some (.deleting tier (s.store.keys s.now tier.keyPrefix) tiers)))
  | delete (worker : ℕ) (tier : CacheTier) (keys : List String) (tiers : List CacheTier)
    (hdeleting : s.clearing worker = some (.deleting tier keys tiers)) :
    Steps ttlFor s (.delete worker)
      { (s.withClearing worker (some (.listing tiers))).withCounter worker tier (fun _ => 0) with
        store := s.store.delete keys }
  | finish (worker : ℕ) (hlisting : s.clearing worker = some (.listing [])) :
    Steps ttlFor s (.finish worker) (s.withClearing worker none)
  | deleteRaises (worker : ℕ) (landed : Bool) (tier : CacheTier) (keys : List String)
    (tiers : List CacheTier) (hdeleting : s.clearing worker = some (.deleting tier keys tiers)) :
    Steps ttlFor s (.clearRaises worker landed)
      { s.withClearing worker none with
        store := if landed then s.store.delete keys else s.store }
  | listRaises (worker : ℕ) (landed : Bool) (tiers : List CacheTier)
    (hlisting : s.clearing worker = some (.listing tiers)) :
    Steps ttlFor s (.clearRaises worker landed) (s.withClearing worker none)

theorem steps_of_step (h : step ttlFor s a = some s') : Steps ttlFor s a s' := by
  cases a with
  | tick seconds =>
    cases h
    exact .tick seconds
  | get worker tier key =>
    cases h
    exact .get worker tier key
  | set worker tier key value =>
    obtain ⟨store, hstore, rfl⟩ := Option.map_eq_some_iff.1 h
    rw [eq_written hstore]
    exact .set worker tier key value
  | setRaises tier key value landed =>
    cases landed with
    | true =>
      obtain ⟨store, hstore, rfl⟩ := Option.map_eq_some_iff.1 h
      rw [eq_written hstore]
      exact .setLanded tier key value
    | false =>
      cases h
      exact .setLost tier key value
  | count call =>
    obtain ⟨⟨hpending, -⟩, hs⟩ := Option.ite_none_right_eq_some.1 h
    cases hs
    exact .count call hpending
  | clearTiers worker tiers =>
    obtain ⟨hfree, hs⟩ := Option.ite_none_right_eq_some.1 h
    cases hs
    exact .clearTiers worker tiers hfree
  | list worker =>
    rw [step] at h
    split at h
    · rename_i tier tiers hlisting
      cases h
      exact .list worker tier tiers hlisting
    · cases h
  | delete worker =>
    rw [step] at h
    split at h
    · rename_i tier keys tiers hdeleting
      cases h
      exact .delete worker tier keys tiers hdeleting
    · cases h
  | finish worker =>
    obtain ⟨hlisting, hs⟩ := Option.ite_none_right_eq_some.1 h
    cases hs
    exact .finish worker hlisting
  | clearRaises worker landed =>
    rw [step] at h
    split at h
    · rename_i tier keys tiers hdeleting
      cases h
      exact .deleteRaises worker landed tier keys tiers hdeleting
    · rename_i tiers hlisting
      cases h
      exact .listRaises worker landed tiers hlisting
    · cases h

theorem delete_nil (store : RedisStore) : store.delete [] = store := by
  simp [RedisStore.delete]

/-- A step writes one entry, or deletes what a clear has listed. -/
theorem store_step (h : step ttlFor s a = some s') :
    (∃ tier key value, landing a = some (tier, key, value) ∧
      s'.store = written ttlFor s tier key value) ∨
    (landing a = none ∧ s'.store = s.store.delete (deleted s a)) := by
  cases steps_of_step h with
  | tick | get | setLost | count | clearTiers | list | finish =>
    exact Or.inr ⟨rfl, (delete_nil _).symm⟩
  | set worker tier key value => exact Or.inl ⟨tier, key, value, rfl, rfl⟩
  | setLanded tier key value => exact Or.inl ⟨tier, key, value, rfl, rfl⟩
  | delete worker tier keys tiers hdeleting =>
    refine Or.inr ⟨rfl, ?_⟩
    rw [deleted, hdeleting]
  | deleteRaises worker landed tier keys tiers hdeleting =>
    refine Or.inr ⟨rfl, ?_⟩
    rw [deleted, hdeleting]
    cases landed
    · exact (delete_nil _).symm
    · rfl
  | listRaises worker landed tiers hlisting =>
    refine Or.inr ⟨rfl, ?_⟩
    rw [deleted, hlisting]
    exact (delete_nil _).symm

theorem now_step (h : step ttlFor s a = some s') : s.now ≤ s'.now := by
  cases steps_of_step h with
  | tick seconds => exact Nat.le_add_right _ _
  | _ => exact Nat.le_refl _

theorem now_exec {as : List QueryCacheAction} (h : exec (step ttlFor) s as = some t) :
    s.now ≤ t.now :=
  invariant (I := fun u => s.now ≤ u.now) (fun _ _ _ hle hstep => hle.trans (now_step hstep))
    (Nat.le_refl _) h

theorem lookup_delete (store : RedisStore) (keys : List String) (key : String) :
    (store.delete keys).lookup key = if key ∈ keys then none else store.lookup key := by
  induction store with
  | nil => simp [RedisStore.delete]
  | cons entry store ih =>
    obtain ⟨first, held⟩ := entry
    rw [RedisStore.delete] at ih ⊢
    rw [Dict.lookup_cons_eq]
    by_cases hfirst : first ∈ keys
    · rw [List.filter_cons_of_neg (by simpa using hfirst), ih]
      by_cases hkey : key = first
      · rw [if_pos (hkey ▸ hfirst), if_pos (hkey ▸ hfirst)]
      · rw [if_neg hkey]
    · rw [List.filter_cons_of_pos (by simpa using hfirst), Dict.lookup_cons_eq, ih]
      by_cases hkey : key = first
      · rw [if_pos hkey, if_pos hkey, if_neg (hkey ▸ hfirst)]
      · rw [if_neg hkey, if_neg hkey]

/-- The step leaves what is stored under the key of the tier. -/
def Spares (tier : CacheTier) (key : String) (s : QueryCacheWorld) (a : QueryCacheAction) : Prop :=
  (∀ value, landing a ≠ some (tier, key, value)) ∧ namespacedKey tier key ∉ deleted s a

instance (tier : CacheTier) (key : String) (s : QueryCacheWorld) (a : QueryCacheAction) :
    Decidable (Spares tier key s a) := by
  refine @instDecidableAnd _ _ ?_ inferInstance
  exact decidable_of_iff (∀ write ∈ landing a, (write.1, write.2.1) ≠ (tier, key)) (by
    constructor
    · intro h value heq
      exact h _ heq rfl
    · rintro h ⟨tier', key', value⟩ hwrite heq
      cases heq
      exact h value hwrite)

/-- The write of a step, and what else it leaves. -/
theorem lookup_step (h : step ttlFor s a = some s') :
    s'.store.lookup (namespacedKey tier key) = some stored ↔
      (∃ value, landing a = some (tier, key, value) ∧ stored = ⟨value, s.now + ttlFor tier⟩) ∨
      (Spares tier key s a ∧ s.store.lookup (namespacedKey tier key) = some stored) := by
  rcases store_step h with ⟨tier', key', value', hlanding, hstore⟩ | ⟨hlanding, hstore⟩
  · have hdeleted : deleted s a = [] := by
      cases a <;> first | rfl | cases hlanding
    rw [hstore, written, Dict.lookup_set, Spares, hlanding, hdeleted]
    by_cases hkey : namespacedKey tier key = namespacedKey tier' key'
    · obtain ⟨rfl, rfl⟩ := namespacedKey_inj hkey
      rw [if_pos rfl, Option.some.injEq]
      constructor
      · rintro rfl
        exact Or.inl ⟨value', rfl, rfl⟩
      · rintro (⟨value, hvalue, rfl⟩ | ⟨⟨hne, -⟩, -⟩)
        · simp only [Option.some.injEq, Prod.mk.injEq, true_and] at hvalue
          rw [hvalue]
        · exact absurd rfl (hne value')
    · have hne : ∀ value, some (tier', key', value') ≠ some (tier, key, value) := by
        intro value heq
        simp only [Option.some.injEq, Prod.mk.injEq] at heq
        exact hkey (by rw [heq.1, heq.2.1])
      rw [if_neg hkey]
      constructor
      · exact fun hlookup => Or.inr ⟨⟨hne, List.not_mem_nil⟩, hlookup⟩
      · rintro (⟨value, hvalue, -⟩ | ⟨-, hlookup⟩)
        · exact absurd hvalue (hne value)
        · exact hlookup
  · rw [hstore, lookup_delete, Spares, hlanding]
    constructor
    · intro hlookup
      split at hlookup
      · cases hlookup
      · rename_i hkey
        refine Or.inr ⟨⟨fun value heq => ?_, hkey⟩, hlookup⟩
        cases heq
    · rintro (⟨value, hvalue, -⟩ | ⟨⟨-, hkey⟩, hlookup⟩)
      · cases hvalue
      · rw [if_neg hkey, hlookup]

/-- What a run leaves under a key of a tier : what its last write of the key stored, or what
was there at the start, unless a clear deletes the key later. -/
theorem lookup_exec {as : List QueryCacheAction} (h : exec (step ttlFor) s as = some t) :
    t.store.lookup (namespacedKey tier key) = some stored ↔
      (∃ pre a post u u', as = pre ++ a :: post ∧ exec (step ttlFor) s pre = some u ∧
        step ttlFor u a = some u' ∧
        (∃ value, landing a = some (tier, key, value) ∧ stored = ⟨value, u.now + ttlFor tier⟩) ∧
        Along (step ttlFor) (Spares tier key) u' post) ∨
      (s.store.lookup (namespacedKey tier key) = some stored ∧
        Along (step ttlFor) (Spares tier key) s as) := by
  refine holds_iff_set_and_kept
    (G := fun u => u.store.lookup (namespacedKey tier key) = some stored) (fun u a u' hstep => ?_) h
  exact lookup_step hstep

theorem get_eq_some_iff : s.store.get s.now (namespacedKey tier key) = some value ↔
    ∃ deadline, s.store.lookup (namespacedKey tier key) = some ⟨value, deadline⟩ ∧
      s.now < deadline := by
  rw [RedisStore.get]
  cases s.store.lookup (namespacedKey tier key) with
  | none => simp
  | some stored =>
    obtain ⟨value', deadline⟩ := stored
    by_cases hlive : s.now < deadline
    · simp only [hlive, if_true, Option.some.injEq, StoredValue.mk.injEq]
      constructor
      · rintro rfl
        exact ⟨deadline, ⟨rfl, rfl⟩, hlive⟩
      · rintro ⟨deadline', ⟨rfl, -⟩, -⟩
        rfl
    · simp only [hlive, if_false, Option.some.injEq, StoredValue.mk.injEq, reduceCtorEq,
        false_iff]
      rintro ⟨deadline', ⟨-, rfl⟩, hlt⟩
      exact hlive hlt

/-- However the calls of the workers run between each other, `get` returns a value just when the
last write of this key in this tier that landed stored the value, its time has not run out, and
no clear has deleted the key since. No call of another tier or key makes a difference. -/
theorem served_iff {run : List QueryCacheAction} (hrun : exec (step ttlFor) start run = some t) :
    t.store.get t.now (namespacedKey tier key) = some value ↔
      ∃ pre a post u u', run = pre ++ a :: post ∧ exec (step ttlFor) start pre = some u ∧
        step ttlFor u a = some u' ∧ landing a = some (tier, key, value) ∧
        t.now < u.now + ttlFor tier ∧ Along (step ttlFor) (Spares tier key) u' post := by
  have hempty : ∀ stored : StoredValue,
      start.store.lookup (namespacedKey tier key) ≠ some stored := fun stored h => by cases h
  rw [get_eq_some_iff]
  constructor
  · rintro ⟨deadline, hlookup, hlive⟩
    rcases (lookup_exec hrun).1 hlookup with
      ⟨pre, a, post, u, u', hsplit, hu, ha, ⟨value', hlanding, hstored⟩, hpost⟩ | ⟨hstart, -⟩
    · obtain ⟨rfl, rfl⟩ := StoredValue.mk.inj hstored
      exact ⟨pre, a, post, u, u', hsplit, hu, ha, hlanding, hlive, hpost⟩
    · exact absurd hstart (hempty _)
  · rintro ⟨pre, a, post, u, u', hsplit, hu, ha, hlanding, hlive, hpost⟩
    exact ⟨u.now + ttlFor tier, (lookup_exec hrun).2
      (Or.inl ⟨pre, a, post, u, u', hsplit, hu, ha, ⟨value, hlanding, rfl⟩, hpost⟩), hlive⟩

/-- The write of another tier under the same key does not come between. -/
theorem served_iff_rewritten : ∃ t, exec (step fun _ => 60) start
      [.set 0 .ragAnswer "k" "old", .tick 30, .set 0 .ragAnswer "k" "new",
        .set 1 .sqlGen "k" "other", .tick 50] = some t ∧
      t.store.get t.now (namespacedKey .ragAnswer "k") = some "new" := by
  refine ⟨_, rfl, (@served_iff (fun _ => 60) _ _ _ _
    [.set 0 .ragAnswer "k" "old", .tick 30, .set 0 .ragAnswer "k" "new",
      .set 1 .sqlGen "k" "other", .tick 50] rfl).2
    ⟨[.set 0 .ragAnswer "k" "old", .tick 30], .set 0 .ragAnswer "k" "new",
      [.set 1 .sqlGen "k" "other", .tick 50], _, _, rfl, rfl, rfl, rfl, ?_, ?_⟩⟩
  · decide
  · decide

/-! ## What a clear is for -/

/-- While a clear is about to delete, only its own next step ends that. -/
theorem clearing_step {worker : ℕ} {keys : List String} {tiers : List CacheTier}
    (h : step ttlFor s a = some s')
    (hclearing : s.clearing worker = some (.deleting tier keys tiers))
    (hdelete : a ≠ .delete worker) (hraises : ∀ landed, a ≠ .clearRaises worker landed) :
    s'.clearing worker = some (.deleting tier keys tiers) := by
  have hother : ∀ {other : ℕ} {clearing : Option Clearing}, other ≠ worker →
      (s.withClearing other clearing).clearing worker = some (.deleting tier keys tiers) :=
    fun hne => (Function.update_of_ne hne.symm _ _).trans hclearing
  cases steps_of_step h with
  | tick | get | set | setLanded | setLost | count => exact hclearing
  | clearTiers other _ hfree =>
    refine hother fun heq => ?_
    rw [heq, hclearing] at hfree
    cases hfree
  | list other _ _ hlisting =>
    refine hother fun heq => ?_
    rw [heq, hclearing] at hlisting
    cases hlisting
  | finish other hlisting =>
    refine hother fun heq => ?_
    rw [heq, hclearing] at hlisting
    cases hlisting
  | delete other => exact hother fun heq => hdelete (by rw [heq])
  | deleteRaises other landed => exact hother fun heq => hraises landed (by rw [heq])
  | listRaises other landed => exact hother fun heq => hraises landed (by rw [heq])

theorem clearing_exec {worker : ℕ} {keys : List String} {tiers : List CacheTier}
    {as : List QueryCacheAction} (hdelete : .delete worker ∉ as)
    (hraises : ∀ landed, .clearRaises worker landed ∉ as) (h : exec (step ttlFor) s as = some t)
    (hclearing : s.clearing worker = some (.deleting tier keys tiers)) :
    t.clearing worker = some (.deleting tier keys tiers) := by
  refine invariant_along (P := fun _ a => a ≠ .delete worker ∧
      ∀ landed, a ≠ .clearRaises worker landed)
    (I := fun u => u.clearing worker = some (.deleting tier keys tiers))
    (fun u a u' hu ha hstep => clearing_step hstep hu ha.1 ha.2) hclearing
    (along_of_forall_mem (fun a ha _ => ⟨?_, fun landed => ?_⟩) s) h
  · rintro rfl
    exact hdelete ha
  · rintro rfl
    exact hraises landed ha

/-- What `get` serves from a tier after a clear of the tier was written after the clear asked
for its keys, whatever ran between. -/
theorem written_after_clear {pre mid post : List QueryCacheAction} {u : QueryCacheWorld}
    {worker : ℕ} {tiers : List CacheTier}
    (hrun : exec (step ttlFor) start (pre ++ .list worker :: (mid ++ .delete worker :: post)) =
      some t)
    (hpre : exec (step ttlFor) start pre = some u)
    (hlist : u.clearing worker = some (.listing (tier :: tiers)))
    (hdelete : .delete worker ∉ mid) (hraises : ∀ landed, .clearRaises worker landed ∉ mid)
    (hserved : t.store.get t.now (namespacedKey tier key) = some value) :
    ∃ a ∈ mid ++ .delete worker :: post, landing a = some (tier, key, value) := by
  obtain ⟨u₀, hu₀, hrest⟩ := exec_append.1 hrun
  obtain rfl : u = u₀ := Option.some.inj (hpre.symm.trans hu₀)
  obtain ⟨u', hu', ht⟩ := exec_cons.1 hrest
  have hlisted : u' = u.withClearing worker
      (some (.deleting tier (u.store.keys u.now tier.keyPrefix) tiers)) := by
    rw [step, hlist] at hu'
    exact (Option.some.inj hu').symm
  obtain ⟨deadline, hlookup, hlive⟩ := get_eq_some_iff.1 hserved
  rcases (lookup_exec ht).1 hlookup with
    ⟨pre', a, post', v, v', hsplit, -, -, ⟨value', hlanding, hstored⟩, -⟩ | ⟨hbefore, halong⟩
  · obtain ⟨rfl, rfl⟩ := StoredValue.mk.inj hstored
    exact ⟨a, by rw [hsplit]; exact List.mem_append_right _ List.mem_cons_self, hlanding⟩
  -- an entry from before the listing was among the keys listed
  exfalso
  obtain ⟨w, hw, hdel⟩ := exec_append.1 ht
  have hclearing : u'.clearing worker =
      some (.deleting tier (u.store.keys u.now tier.keyPrefix) tiers) := by
    rw [hlisted]
    exact Function.update_self _ _ _
  have hkeys := clearing_exec hdelete hraises hw hclearing
  have hspares := ((along_append hw).1 halong).2.1.2
  rw [deleted, hkeys] at hspares
  refine hspares (List.mem_map.2 ⟨(namespacedKey tier key, ⟨value, deadline⟩), ?_, rfl⟩)
  rw [hlisted] at hbefore
  have hnow : u.now ≤ t.now := by
    have hle := now_exec ht
    rwa [hlisted] at hle
  refine List.mem_filter.2 ⟨Dict.mem_of_lookup hbefore, ?_⟩
  rw [Bool.and_eq_true, decide_eq_true_eq, isPrefixOf_namespacedKey]
  exact ⟨Nat.lt_of_le_of_lt hnow hlive, rfl⟩

theorem written_after_clear_rewritten :
    ∃ a ∈ [.delete 0, .finish 0, .set 1 .ragAnswer "k" "new", .tick 5],
      landing a = some (.ragAnswer, "k", "new") :=
  @written_after_clear (fun _ => 60) _ .ragAnswer "k" "new"
    [.set 0 .ragAnswer "k" "old", .clearTiers 0 [.ragAnswer]] []
    [.finish 0, .set 1 .ragAnswer "k" "new", .tick 5] _ 0 [] rfl rfl rfl (by decide)
    (fun _ => List.not_mem_nil) (by decide)

/-! ## The counters -/

/-- What the step leaves to be counted. -/
def started (s : QueryCacheWorld) : QueryCacheAction → List PendingCount
  | .get worker tier key => [⟨worker, tier, readKind s tier key⟩]
  | .set worker tier _ _ => [⟨worker, tier, .set⟩]
  | _ => []

/-- The step leaves the counters of the tier. -/
def KeepsCounters (worker : ℕ) (tier : CacheTier) (s : QueryCacheWorld) (a : QueryCacheAction) :
    Prop :=
  ∀ keys tiers, a = .delete worker → s.clearing worker ≠ some (.deleting tier keys tiers)

/-- What has been counted of a kind, and what is going to be. -/
def tally (s : QueryCacheWorld) (call : PendingCount) : ℕ :=
  s.counters call.worker call.tier call.kind + s.pending.count call

/-- A call that counts goes from what is going to be counted to what has been. -/
theorem tally_count {call other : PendingCount} (hpending : other ∈ s.pending) :
    tally { s.withCounter other.worker other.tier (Function.update
        (s.counters other.worker other.tier) other.kind
        (s.counters other.worker other.tier other.kind + 1)) with
      pending := s.pending.erase other } call = tally s call := by
  have hcounter := s.withCounter_counters other.worker call.worker other.tier call.tier
    (Function.update (s.counters other.worker other.tier) other.kind
      (s.counters other.worker other.tier other.kind + 1)) call.kind
  show (s.withCounter _ _ _).counters _ _ _ + (s.pending.erase other).count call = tally s call
  rw [hcounter, tally]
  by_cases hcall : call = other
  · subst hcall
    have hpos := List.count_pos_iff.2 hpending
    rw [if_pos ⟨rfl, rfl⟩, Function.update_self, List.count_erase_self]
    omega
  · rw [List.count_erase_of_ne hcall]
    split
    · rename_i hsame
      have hkind : call.kind ≠ other.kind := fun hkind =>
        hcall (PendingCount.ext hsame.1 hsame.2 hkind)
      rw [Function.update_of_ne hkind, hsame.1, hsame.2]
    · rfl

theorem tally_step {call : PendingCount} (h : step ttlFor s a = some s')
    (hkeeps : KeepsCounters call.worker call.tier s a) :
    tally s' call = tally s call + (started s a).count call := by
  have hbegin : ∀ {u : QueryCacheWorld} {begun : PendingCount}, u.counters = s.counters →
      u.pending = begun :: s.pending → tally u call = tally s call + [begun].count call :=
    fun hcounters hpending => by
      rw [tally, tally, hcounters, hpending, List.count_cons, List.count_singleton, Nat.add_assoc]
  cases steps_of_step h with
  | tick | setLanded | setLost | clearTiers | list | finish | deleteRaises | listRaises => rfl
  | get => exact hbegin rfl rfl
  | set => exact hbegin rfl rfl
  | count other hpending => exact tally_count hpending
  | delete worker tier keys tiers hdeleting =>
    show ((s.withClearing worker _).withCounter worker tier _).counters _ _ _ + _ = _
    rw [QueryCacheWorld.withCounter_counters, if_neg]
    · rfl
    · rintro ⟨hworker, htier⟩
      exact hkeeps keys tiers (by rw [hworker]) (by rw [hworker, htier, hdeleting])

/-- Between two resets of its counters a tier counts every read that found something as a hit,
every other read as a miss and every write that did not raise, each once, as soon as the calls
under way have counted : whatever runs between the store and the count of a call. -/
theorem counted {call : PendingCount} {as : List QueryCacheAction}
    (hrun : exec (step ttlFor) s as = some t)
    (hkeeps : Along (step ttlFor) (KeepsCounters call.worker call.tier) s as) :
    t.counters call.worker call.tier call.kind + t.pending.count call =
      s.counters call.worker call.tier call.kind + s.pending.count call +
        (outputs (step ttlFor) started s as).count call := by
  change tally t call = tally s call + _
  induction as generalizing s with
  | nil =>
    obtain rfl : s = t := by simpa using hrun
    rfl
  | cons a as ih =>
    obtain ⟨s', hs, ht⟩ := exec_cons.1 hrun
    obtain ⟨hfirst, hrest⟩ := (along_cons hs).1 hkeeps
    rw [ih ht hrest, tally_step hs hfirst, outputs_cons hs, List.count_append, Nat.add_assoc]

/-- A read of a key that is not there counts as a miss once its call counts, also when the key
is written in between. -/
theorem counted_miss : ∃ t, exec (step fun _ => 60) start
      [.get 0 .intent "k", .set 1 .intent "k" "v", .count ⟨0, .intent, .miss⟩] = some t ∧
      t.counters 0 .intent .miss = 1 := by
  have hnone : ∀ a ∈ [QueryCacheAction.get 0 .intent "k", .set 1 .intent "k" "v",
      .count ⟨0, .intent, .miss⟩], a ≠ .delete 0 := by decide
  refine ⟨_, rfl, ?_⟩
  have hcount := @counted (fun _ => 60) start _ ⟨0, .intent, .miss⟩
    [.get 0 .intent "k", .set 1 .intent "k" "v", .count ⟨0, .intent, .miss⟩] rfl
    (along_of_forall_mem (fun a ha _ _ _ h => absurd h (hnone a ha)) _)
  exact hcount

theorem hitRate_mem (counters : CountKind → ℕ) : 0 ≤ hitRate counters ∧ hitRate counters ≤ 1 := by
  rw [hitRate]
  split
  · exact ⟨le_refl 0, zero_le_one⟩
  · rename_i h
    have hpos : (0 : ℚ) < (counters .hit + counters .miss : ℕ) := by
      exact_mod_cast Nat.pos_of_ne_zero h
    refine ⟨div_nonneg (Nat.cast_nonneg _) hpos.le, (div_le_one hpos).2 ?_⟩
    exact_mod_cast Nat.le_add_right _ _

end QueryCacheService

end EnterpriseRag
